import Rkhv.FreePages

/-!
# What the page search finds

The pages of the usable descriptors are numbered by rank, in ascending order
of descriptor and page. The search steps from one rank to the next lower one;
from rank zero it wraps to the highest rank when descriptor 0 is usable and
leaves the array when it is not. Every outcome of the loop is read off this.
-/

namespace Rkhv.FreePageSearch

open ByteMemory HostTypes HostState StateOutcome FreePages

variable {mmap : EfiMmap} {isFree : Word → Bool}

/-- A (region index, page index) pair inside a usable descriptor. -/
def ValidPosition (mmap : EfiMmap) (pos : Word × Word) : Prop :=
  ∃ desc, mmap[pos.1.toNat]? = some desc ∧ descUsable desc = true ∧
    pos.2.toNat < desc.pages.toNat

/-- Number of usable pages before a position. -/
def rank (mmap : EfiMmap) (pos : Word × Word) : ℕ := pagesBelow mmap pos.1.toNat + pos.2.toNat

/-- Address of the page at a position; zero outside the map. -/
def positionPage (mmap : EfiMmap) (pos : Word × Word) : Word :=
  match mmap[pos.1.toNat]? with
  | none => 0
  | some desc => descPage desc pos.2

/-- Descriptor 0 is usable, so that a search from region 0 starts over at the
top of the map. -/
def FirstUsable (mmap : EfiMmap) : Prop := 0 < pagesBelow mmap 1

theorem toNat_bound {desc : ChainloadMmapDesc} (h : descUsable desc = true) :
    descWeight desc = desc.pages.toNat ∧ 0 < desc.pages.toNat := by
  have hp : desc.pages ≠ 0 := by
    simp only [descUsable, Bool.and_eq_true, bne_iff_ne] at h
    exact h.2
  refine ⟨by rw [descWeight, if_pos h], ?_⟩
  have hn : desc.pages.toNat ≠ 0 := fun hz => hp (BitVec.eq_of_toNat_eq (by simpa using hz))
  omega

theorem pagesBelow_succ {r : ℕ} {desc : ChainloadMmapDesc} (h : mmap[r]? = some desc) :
    pagesBelow mmap (r + 1) = pagesBelow mmap r + descWeight desc := by
  have hl : mmap.toList[r]? = some desc := by
    rwa [Vector.getElem?_toList]
  simp only [pagesBelow, List.take_add_one, hl, Option.toList_some, List.map_append, List.map_cons,
    List.map_nil, List.sum_append, List.sum_cons, List.sum_nil, Nat.add_zero]

theorem pagesBelow_mono {r k : ℕ} (h : r ≤ k) : pagesBelow mmap r ≤ pagesBelow mmap k := by
  induction h with
  | refl => exact Nat.le_refl _
  | step h ih =>
    rename_i n
    cases hd : mmap[n]? with
    | some desc =>
      rw [pagesBelow_succ hd]
      omega
    | none =>
      have hl : mmap.toList[n]? = none := by rwa [Vector.getElem?_toList]
      simpa only [pagesBelow, List.take_add_one, hl, Option.toList_none, List.append_nil] using ih

theorem ValidPosition.lt {pos : Word × Word} (h : ValidPosition mmap pos) : pos.1.toNat < 231 := by
  obtain ⟨desc, hd, _⟩ := h
  rw [Vector.getElem?_eq_some_iff] at hd
  exact hd.1

/-- A valid position lies below the next region's first rank. -/
theorem ValidPosition.rank_lt {pos : Word × Word} (h : ValidPosition mmap pos) :
    rank mmap pos < pagesBelow mmap (pos.1.toNat + 1) := by
  obtain ⟨desc, hd, hu, hp⟩ := h
  rw [pagesBelow_succ hd, (toNat_bound hu).1, rank]
  omega

theorem ValidPosition.rank_lt_total {pos : Word × Word} (h : ValidPosition mmap pos) :
    rank mmap pos < pagesBelow mmap 231 :=
  h.rank_lt.trans_le (pagesBelow_mono h.lt)

/-- A valid position carries no end mark. -/
theorem ValidPosition.ne_mark {pos : Word × Word} (h : ValidPosition mmap pos) :
    ¬(pos.1 = -1 ∨ pos.2 = -1) := by
  have hr := h.lt
  obtain ⟨desc, _, _, hp⟩ := h
  have hb := desc.pages.isLt
  have hm : (-1 : Word).toNat = 2 ^ 64 - 1 := rfl
  rintro (he | he)
  · rw [he, hm] at hr
    omega
  · rw [he, hm] at hp
    omega

/-- Positions are determined by their rank. -/
theorem ValidPosition.eq_of_rank {pos pos' : Word × Word} (h : ValidPosition mmap pos)
    (h' : ValidPosition mmap pos') (hr : rank mmap pos = rank mmap pos') : pos = pos' := by
  have hregion : pos.1.toNat = pos'.1.toNat := by
    rcases Nat.lt_trichotomy pos.1.toNat pos'.1.toNat with hlt | heq | hgt
    · have hm := @pagesBelow_mono mmap _ _ (Nat.succ_le_of_lt hlt)
      have hl := h.rank_lt
      have hle : pagesBelow mmap pos'.1.toNat ≤ rank mmap pos' := Nat.le_add_right _ _
      simp only [Nat.succ_eq_add_one] at hm
      omega
    · exact heq
    · have hm := @pagesBelow_mono mmap _ _ (Nat.succ_le_of_lt hgt)
      have hl := h'.rank_lt
      have hle : pagesBelow mmap pos.1.toNat ≤ rank mmap pos := Nat.le_add_right _ _
      simp only [Nat.succ_eq_add_one] at hm
      omega
  have hpage : pos.2.toNat = pos'.2.toNat := by
    rw [rank, rank, hregion] at hr
    omega
  exact Prod.ext (BitVec.eq_of_toNat_eq hregion) (BitVec.eq_of_toNat_eq hpage)

/-- The region search ends at the last page below region `k`, or leaves the
array when there is none. -/
theorem regionSearch_eq (mmap : EfiMmap) {k : ℕ} (hk : k ≤ 231) :
    (pagesBelow mmap k = 0 ∧ regionSearch mmap k = .error (.outOfBounds (-1))) ∨
      ∃ pos, regionSearch mmap k = .ok pos ∧ ValidPosition mmap pos ∧
        rank mmap pos + 1 = pagesBelow mmap k := by
  induction k with
  | zero => exact Or.inl ⟨rfl, rfl⟩
  | succ i ih =>
    have hi : i < 231 := by omega
    have hd : mmap[i]? = some mmap[i] := Vector.getElem?_eq_getElem hi
    have htoNat : (BitVec.ofNat 64 i).toNat = i := by
      rw [BitVec.toNat_ofNat]
      omega
    by_cases hu : descUsable mmap[i] = true
    · refine Or.inr ⟨(BitVec.ofNat 64 i, mmap[i].pages.setWidth 64 - 1), ?_, ?_, ?_⟩
      · simp only [regionSearch, hd, hu, if_true]
      · have hb := toNat_bound hu
        have hlt := mmap[i].pages.isLt
        refine ⟨mmap[i], by rw [htoNat]; exact hd, hu, ?_⟩
        simp only [BitVec.toNat_sub, BitVec.toNat_setWidth, BitVec.ofNat_eq_ofNat,
          BitVec.toNat_ofNat]
        omega
      · have hb := toNat_bound hu
        have hlt := mmap[i].pages.isLt
        rw [pagesBelow_succ hd, rank, hb.1, htoNat]
        simp only [BitVec.toNat_sub, BitVec.toNat_setWidth, BitVec.ofNat_eq_ofNat,
          BitVec.toNat_ofNat]
        omega
    · have hw : descWeight mmap[i] = 0 := by rw [descWeight, if_neg hu]
      have hs : regionSearch mmap (i + 1) = regionSearch mmap i := by
        simp only [regionSearch, hd, hu, if_false, Bool.false_eq_true]
      rw [hs, pagesBelow_succ hd, hw, Nat.add_zero]
      exact ih (by omega)

/-- The complete loop mark after a round that started at `current`. -/
def loopMark (current complete : Word × Word) : Word × Word :=
  if complete.1 = -1 ∨ complete.2 = -1 then current else complete

/-- A round at a free page returns it. -/
theorem scanLoop_free {fuel : ℕ} {current complete : Word × Word}
    (hv : ValidPosition mmap current) (hne : current ≠ complete)
    (hfree : isFree (positionPage mmap current) = true) :
    scanLoop mmap isFree (fuel + 1) current complete =
      .ok (positionPage mmap current, current) := by
  obtain ⟨desc, hd, _⟩ := hv
  have hpage : positionPage mmap current = descPage desc current.2 := by
    simp only [positionPage, hd]
  rw [hpage] at hfree ⊢
  rw [scanLoop, if_neg hne]
  simp only [hd, hfree, if_true]

/-- A round at a page that is not free steps to the next lower rank, wraps to
the highest one, or leaves the array. -/
theorem scanLoop_used {fuel : ℕ} {current complete : Word × Word}
    (hv : ValidPosition mmap current) (hne : current ≠ complete)
    (hused : isFree (positionPage mmap current) = false) :
    (∃ next, ValidPosition mmap next ∧ rank mmap next + 1 = rank mmap current ∧
        scanLoop mmap isFree (fuel + 1) current complete =
          scanLoop mmap isFree fuel next (loopMark current complete)) ∨
      (rank mmap current = 0 ∧ FirstUsable mmap ∧ ∃ next, ValidPosition mmap next ∧
        rank mmap next + 1 = pagesBelow mmap 231 ∧
        scanLoop mmap isFree (fuel + 1) current complete =
          scanLoop mmap isFree fuel next (loopMark current complete)) ∨
      (rank mmap current = 0 ∧ ¬FirstUsable mmap ∧
        scanLoop mmap isFree (fuel + 1) current complete = .error (.outOfBounds (-1))) := by
  have hr := hv.lt
  have hlt := hv.rank_lt
  obtain ⟨desc, hd, hu, hp⟩ := hv
  have hb := desc.pages.isLt
  have hpage : positionPage mmap current = descPage desc current.2 := by
    simp only [positionPage, hd]
  rw [hpage] at hused
  have hpages : (desc.pages.setWidth 64).toNat = desc.pages.toNat := by
    rw [BitVec.toNat_setWidth]
    omega
  have hprev : (current.2 - 1).toNat = (2 ^ 64 - 1 + current.2.toNat) % 2 ^ 64 := by
    rw [BitVec.toNat_sub]
    rfl
  by_cases hz : current.2.toNat = 0
  · -- the first page of the region: the search goes on in a lower region
    have hle : desc.pages.setWidth 64 ≤ current.2 - 1 := by
      rw [BitVec.le_def, hpages, hprev]
      omega
    have hrank : rank mmap current = pagesBelow mmap current.1.toNat := by
      rw [rank, hz, Nat.add_zero]
    by_cases hr0 : current.1.toNat = 0
    · have hstart : current.1 ≤ 0 ∨ BitVec.ofNat 64 rkhvMaxEfiMmapDescriptors < current.1 := by
        left
        rw [BitVec.le_def, hr0]
        exact Nat.zero_le _
      have hpos : FirstUsable mmap := by
        rw [rank, hr0, hz] at hlt
        exact hlt
      have hzero : rank mmap current = 0 := by
        rw [hrank, hr0]
        rfl
      obtain ⟨hnone, _⟩ | ⟨next, hs, hnv, hnr⟩ := regionSearch_eq mmap (Nat.le_refl 231)
      · have hmono := @pagesBelow_mono mmap _ _ (show 1 ≤ 231 by decide)
        rw [FirstUsable] at hpos
        omega
      · refine Or.inr (Or.inl ⟨hzero, hpos, next, hnv, hnr, ?_⟩)
        rw [scanLoop, if_neg hne]
        simp only [hd, hused, Bool.false_eq_true, if_false, hle, if_true, hstart]
        rw [show (BitVec.ofNat 64 rkhvMaxEfiMmapDescriptors).toNat = 231 from rfl, hs]
        rfl
    · have hstart : ¬(current.1 ≤ 0 ∨ BitVec.ofNat 64 rkhvMaxEfiMmapDescriptors < current.1) := by
        rw [BitVec.le_def, BitVec.lt_def]
        rw [show (BitVec.ofNat 64 rkhvMaxEfiMmapDescriptors).toNat = 231 from rfl,
          show (0 : Word).toNat = 0 from rfl]
        omega
      have hround : scanLoop mmap isFree (fuel + 1) current complete =
          (regionSearch mmap current.1.toNat).bind fun next =>
            scanLoop mmap isFree fuel next (loopMark current complete) := by
        rw [scanLoop, if_neg hne]
        simp only [hd, hused, Bool.false_eq_true, if_false, hle, if_true, hstart]
        cases regionSearch mmap current.1.toNat <;> rfl
      obtain ⟨hnone, hs⟩ | ⟨next, hs, hnv, hnr⟩ := regionSearch_eq mmap (Nat.le_of_lt hr)
      · refine Or.inr (Or.inr ⟨by rw [hrank, hnone], fun hpos => ?_, by rw [hround, hs]; rfl⟩)
        have hmono := @pagesBelow_mono mmap _ _ (show 1 ≤ current.1.toNat by omega)
        rw [FirstUsable] at hpos
        omega
      · exact Or.inl ⟨next, hnv, by rw [hrank, hnr], by rw [hround, hs]; rfl⟩
  · have hnle : ¬desc.pages.setWidth 64 ≤ current.2 - 1 := by
      rw [BitVec.le_def, hpages, hprev]
      omega
    refine Or.inl ⟨(current.1, current.2 - 1), ⟨desc, hd, hu, ?_⟩, ?_, ?_⟩
    · simp only [hprev]
      omega
    · simp only [rank, hprev]
      omega
    · rw [scanLoop, if_neg hne]
      simp only [hd, hused, Bool.false_eq_true, if_false, hnle]
      rfl

/-- What each outcome of the loop means for the free pages: a returned page is
free, the out-of-memory panic comes after all ranks down to the mark, and the
array is only left below all ranks of a map whose descriptor 0 is not usable. -/
theorem scanLoop_outcome {complete : Word × Word} (hc : ValidPosition mmap complete) :
    ∀ (fuel : ℕ) (current : Word × Word), ValidPosition mmap current →
      (rank mmap complete ≤ rank mmap current → rank mmap current < fuel + rank mmap complete) →
      (rank mmap current < rank mmap complete →
        rank mmap current + pagesBelow mmap 231 < fuel + rank mmap complete) →
      match scanLoop mmap isFree fuel current complete with
      | .ok (page, pos) => ValidPosition mmap pos ∧ page = positionPage mmap pos ∧
          isFree page = true ∧ (FirstUsable mmap ∨ rank mmap pos ≤ rank mmap current)
      | .error (.panic _) => (rank mmap current < rank mmap complete → FirstUsable mmap) ∧
          ∀ pos, ValidPosition mmap pos →
            (rank mmap complete < rank mmap pos ∧ (rank mmap pos ≤ rank mmap current ∨
                rank mmap current < rank mmap complete) ∨
              rank mmap current < rank mmap complete ∧ rank mmap pos ≤ rank mmap current) →
            isFree (positionPage mmap pos) = false
      | .error (.outOfBounds _) => ¬FirstUsable mmap ∧ rank mmap current < rank mmap complete ∧
          ∀ pos, ValidPosition mmap pos → rank mmap pos ≤ rank mmap current →
            isFree (positionPage mmap pos) = false
      | .error .nullPointer => False
      | .error .divisionByZero | .error .hang => False := by
  have hmark : ∀ current, loopMark current complete = complete := fun _ =>
    if_neg hc.ne_mark
  have hct := hc.rank_lt_total
  intro fuel
  induction fuel with
  | zero =>
    intro current _ hle hlt
    exfalso
    omega
  | succ fuel ih =>
    intro current hv hle hlt
    by_cases heq : current = complete
    · rw [scanLoop, if_pos heq, heq]
      exact ⟨fun h => absurd h (Nat.lt_irrefl _), fun pos _ h => by omega⟩
    have hne : rank mmap current ≠ rank mmap complete := fun h => heq (hv.eq_of_rank hc h)
    cases hf : isFree (positionPage mmap current) with
    | true =>
      rw [scanLoop_free hv heq hf]
      exact ⟨hv, rfl, hf, Or.inr (Nat.le_refl _)⟩
    | false =>
      -- a position of the current rank is the current one, which is not free
      have hcur : ∀ pos, ValidPosition mmap pos → rank mmap pos = rank mmap current →
          isFree (positionPage mmap pos) = false := fun pos hp hr => by
        rw [hp.eq_of_rank hv hr, hf]
      rcases @scanLoop_used mmap isFree fuel _ _ hv heq hf with
        ⟨next, hnv, hnr, hs⟩ | ⟨hz, hfirst, next, hnv, hnr, hs⟩ | ⟨hz, hfirst, hs⟩
      · rw [hs, hmark]
        have hnext := ih next hnv (by omega) (by omega)
        split at hnext
        · exact ⟨hnext.1, hnext.2.1, hnext.2.2.1, hnext.2.2.2.imp id (by omega)⟩
        · refine ⟨fun h => hnext.1 (by omega), fun pos hp harc => ?_⟩
          by_cases hrank : rank mmap pos = rank mmap current
          · exact hcur pos hp hrank
          · exact hnext.2 pos hp (by omega)
        · refine ⟨hnext.1, by omega, fun pos hp hpr => ?_⟩
          by_cases hrank : rank mmap pos = rank mmap current
          · exact hcur pos hp hrank
          · exact hnext.2.2 pos hp (by omega)
        · exact hnext
        · exact hnext
        · exact hnext
      · rw [hs, hmark]
        have hnext := ih next hnv (by omega) (by omega)
        split at hnext
        · exact ⟨hnext.1, hnext.2.1, hnext.2.2.1, Or.inl hfirst⟩
        · refine ⟨fun _ => hfirst, fun pos hp harc => ?_⟩
          by_cases hrank : rank mmap pos = rank mmap current
          · exact hcur pos hp hrank
          · have hpt := hp.rank_lt_total
            exact hnext.2 pos hp (by omega)
        · exact absurd hfirst hnext.1
        · exact hnext
        · exact hnext
        · exact hnext
      · rw [hs]
        refine ⟨hfirst, by omega, fun pos hp hpr => hcur pos hp (by omega)⟩

/-! ## The whole search -/

/-- A saved cursor: none yet, or a position inside a usable descriptor. -/
def CursorOk (mmap : EfiMmap) (cursor : Word × Word) : Prop :=
  cursor = (-1, -1) ∨ ValidPosition mmap cursor

/-- At or below the position of a cursor in the order of the scan; without a
cursor every position is. -/
def AtOrBelow (cursor pos : Word × Word) : Prop :=
  cursor = (-1, -1) ∨ pos.1 < cursor.1 ∨ pos.1 = cursor.1 ∧ pos.2 ≤ cursor.2

/-- The order of positions is the order of their ranks. -/
theorem ValidPosition.atOrBelow_iff {cursor pos : Word × Word} (hc : ValidPosition mmap cursor)
    (hp : ValidPosition mmap pos) : AtOrBelow cursor pos ↔ rank mmap pos ≤ rank mmap cursor := by
  have hnone : cursor ≠ (-1, -1) := fun h => hc.ne_mark (Or.inl (by rw [h]))
  simp only [AtOrBelow, hnone, false_or, BitVec.lt_def, BitVec.le_def]
  rcases Nat.lt_trichotomy pos.1.toNat cursor.1.toNat with hlt | heq | hgt
  · have hm := @pagesBelow_mono mmap _ _ (Nat.succ_le_of_lt hlt)
    have hl := hp.rank_lt
    have hle : pagesBelow mmap cursor.1.toNat ≤ rank mmap cursor := Nat.le_add_right _ _
    simp only [Nat.succ_eq_add_one] at hm
    exact ⟨fun _ => by omega, fun _ => Or.inl hlt⟩
  · have he : pos.1 = cursor.1 := BitVec.eq_of_toNat_eq heq
    simp only [rank, he, Nat.lt_irrefl, false_or, true_and, Nat.add_le_add_iff_left]
  · have hne : pos.1 ≠ cursor.1 := fun h => by rw [h] at hgt; omega
    have hm := @pagesBelow_mono mmap _ _ (Nat.succ_le_of_lt hgt)
    have hl := hc.rank_lt
    have hle : pagesBelow mmap pos.1.toNat ≤ rank mmap pos := Nat.le_add_right _ _
    simp only [Nat.succ_eq_add_one] at hm
    simp only [hne, false_and, or_false]
    exact ⟨fun _ => by omega, fun _ => by omega⟩

/-- Outcomes of the loop entered at a valid position without a mark. -/
theorem scanLoop_start {start : Word × Word} (hv : ValidPosition mmap start) :
    match scanLoop mmap isFree (scanFuel mmap) start (-1, -1) with
    | .ok (page, pos) => ValidPosition mmap pos ∧ page = positionPage mmap pos ∧
        isFree page = true ∧ (FirstUsable mmap ∨ rank mmap pos ≤ rank mmap start)
    | .error (.panic _) => FirstUsable mmap ∧
        ∀ pos, ValidPosition mmap pos → isFree (positionPage mmap pos) = false
    | .error (.outOfBounds _) => ¬FirstUsable mmap ∧ ∀ pos, ValidPosition mmap pos →
        rank mmap pos ≤ rank mmap start → isFree (positionPage mmap pos) = false
    | .error .nullPointer => False
    | .error .divisionByZero | .error .hang => False := by
  have hne : start ≠ (-1, -1) := fun h => hv.ne_mark (Or.inl (by rw [h]))
  have hmark : loopMark start (-1, -1) = start := if_pos (Or.inl rfl)
  have hst := hv.rank_lt_total
  have htotal : rkhvMaxEfiMmapDescriptors = 231 := rfl
  rw [scanFuel, htotal]
  cases hf : isFree (positionPage mmap start) with
  | true =>
    rw [scanLoop_free hv hne hf]
    exact ⟨hv, rfl, hf, Or.inr (Nat.le_refl _)⟩
  | false =>
    have hcur : ∀ pos, ValidPosition mmap pos → rank mmap pos = rank mmap start →
        isFree (positionPage mmap pos) = false := fun pos hp hr => by
      rw [hp.eq_of_rank hv hr, hf]
    rcases @scanLoop_used mmap isFree (pagesBelow mmap 231) _ _ hv hne hf with
      ⟨next, hnv, hnr, hs⟩ | ⟨hz, hfirst, next, hnv, hnr, hs⟩ | ⟨hz, hfirst, hs⟩
    · rw [hs, hmark]
      have hrest := @scanLoop_outcome mmap isFree _ hv (pagesBelow mmap 231) next hnv
        (by omega) (by omega)
      split at hrest
      · exact ⟨hrest.1, hrest.2.1, hrest.2.2.1, hrest.2.2.2.imp id (by omega)⟩
      · refine ⟨hrest.1 (by omega), fun pos hp => ?_⟩
        by_cases hr : rank mmap pos = rank mmap start
        · exact hcur pos hp hr
        · exact hrest.2 pos hp (by omega)
      · refine ⟨hrest.1, fun pos hp hle => ?_⟩
        by_cases hr : rank mmap pos = rank mmap start
        · exact hcur pos hp hr
        · exact hrest.2.2 pos hp (by omega)
      · exact hrest
      · exact hrest
      · exact hrest
    · rw [hs, hmark]
      have hrest := @scanLoop_outcome mmap isFree _ hv (pagesBelow mmap 231) next hnv
        (by omega) (by omega)
      split at hrest
      · exact ⟨hrest.1, hrest.2.1, hrest.2.2.1, Or.inl hfirst⟩
      · refine ⟨hfirst, fun pos hp => ?_⟩
        have hpt := hp.rank_lt_total
        by_cases hr : rank mmap pos = rank mmap start
        · exact hcur pos hp hr
        · exact hrest.2 pos hp (by omega)
      · exact absurd hfirst hrest.1
      · exact hrest
      · exact hrest
      · exact hrest
    · rw [hs]
      exact ⟨hfirst, fun pos hp hle => hcur pos hp (by omega)⟩

/-- What every outcome of the search says about the free pages. -/
theorem freePageSearch_outcome {cursor : Word × Word} (hc : CursorOk mmap cursor) :
    match freePageSearch mmap isFree cursor.1 cursor.2 with
    | .ok (page, pos) => ValidPosition mmap pos ∧ page = positionPage mmap pos ∧
        isFree page = true ∧ (FirstUsable mmap ∨ AtOrBelow cursor pos)
    | .error (.panic _) => FirstUsable mmap ∧
        ∀ pos, ValidPosition mmap pos → isFree (positionPage mmap pos) = false
    | .error (.outOfBounds _) => ¬FirstUsable mmap ∧ ∀ pos, ValidPosition mmap pos →
        AtOrBelow cursor pos → isFree (positionPage mmap pos) = false
    | .error .nullPointer => False
    | .error .divisionByZero | .error .hang => False := by
  have hloop : ∀ start, scanStart mmap cursor.1 cursor.2 = .ok start → ValidPosition mmap start →
      freePageSearch mmap isFree cursor.1 cursor.2 =
        scanLoop mmap isFree (scanFuel mmap) start (-1, -1) := fun start hs hv => by
    simp only [freePageSearch, hs, if_neg hv.ne_mark]
  rcases hc with rfl | hv
  · have hstart : scanStart mmap (-1) (-1) = regionSearch mmap 231 := if_pos (Or.inl rfl)
    obtain ⟨hnone, hs⟩ | ⟨start, hs, hv, hr⟩ := regionSearch_eq mmap (Nat.le_refl 231)
    · have hno : ∀ pos, ¬ValidPosition mmap pos := fun pos hp => by
        have := hp.rank_lt_total
        omega
      have hfirst : ¬FirstUsable mmap := fun h => by
        have hmono := @pagesBelow_mono mmap _ _ (show 1 ≤ 231 by decide)
        rw [FirstUsable] at h
        omega
      simp only [freePageSearch, hstart, hs]
      exact ⟨hfirst, fun pos hp => absurd hp (hno pos)⟩
    · have hrest := @scanLoop_start mmap isFree _ hv
      rw [hloop start (hstart.trans hs) hv]
      split at hrest
      · exact ⟨hrest.1, hrest.2.1, hrest.2.2.1, Or.inr (Or.inl rfl)⟩
      · exact hrest
      · refine ⟨hrest.1, fun pos hp _ => hrest.2 pos hp ?_⟩
        have := hp.rank_lt_total
        omega
      · exact hrest
      · exact hrest
      · exact hrest
  · have hrest := @scanLoop_start mmap isFree _ hv
    rw [hloop cursor (if_neg hv.ne_mark) hv]
    split at hrest
    · exact ⟨hrest.1, hrest.2.1, hrest.2.2.1, hrest.2.2.2.imp id (hv.atOrBelow_iff hrest.1).mpr⟩
    · exact hrest
    · exact ⟨hrest.1, fun pos hp hle => hrest.2 pos hp ((hv.atOrBelow_iff hp).mp hle)⟩
    · exact hrest
    · exact hrest
    · exact hrest

end Rkhv.FreePageSearch
