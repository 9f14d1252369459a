import Rkhv.WordFields

/-!
# Address translations that act on pages

An address is a page number followed by an offset inside the page. A translation
is paged when it only looks at the page number and keeps the offset. Branching on
what does not depend on the offset and translating twice keep this property, and
a paged translation moves whole pages: what it does to one address it does to
every other address of the page.
-/

namespace Rkhv.PagedTranslation

open ByteMemory WordFields

/-- The upper part of an address. -/
abbrev PageNumber := BitVec 52

/-- The lower part of an address. -/
abbrev PageOffset := BitVec 12

/-- Results for the offsets of one page that are one page with the same offsets. -/
def Inside (g : PageOffset → Option Word) : Prop :=
  ∃ target : Option PageNumber, ∀ offset, g offset = target.map (· ++ offset)

/-- Translations that act on page numbers. -/
def Paged (f : Word → Option Word) : Prop := ∀ page : PageNumber, Inside fun offset => f (page ++ offset)

/-- Where a paged translation takes a page. -/
theorem Paged.exists_target {f : Word → Option Word} (hf : Paged f) (page : PageNumber) :
    ∃ target : Option PageNumber, ∀ offset : PageOffset, f (page ++ offset) = target.map (· ++ offset) :=
  hf page

/-! ## Building paged translations -/

theorem inside_none : Inside fun _ => none := ⟨none, fun _ => rfl⟩

/-- Branching on what does not depend on the offset. -/
theorem Inside.ite {g g' : PageOffset → Option Word} (c : Prop) [Decidable c] (h : Inside g)
    (h' : Inside g') : Inside fun offset => if c then g offset else g' offset := by
  by_cases hc : c
  · simp only [if_pos hc]
    exact h
  · simp only [if_neg hc]
    exact h'

/-- Going on with a result that does not depend on the offset. -/
theorem inside_bind {α : Type*} {g : α → PageOffset → Option Word} (x : Option α)
    (h : ∀ a, Inside (g a)) : Inside fun offset => x.bind fun a => g a offset := by
  cases x with
  | none => exact inside_none
  | some a => exact h a

/-- Masks that take the page from an entry and the offset from an address. -/
theorem inside_leaf (entry : Word) (page : PageNumber) {pageBits addressBits : Word}
    (hpage : ∀ i < 12, pageBits.getLsbD i = false)
    (haddress : ∀ i < 12, addressBits.getLsbD i = true) :
    Inside fun offset => some ((entry &&& pageBits) ||| ((page ++ offset) &&& addressBits)) := by
  refine ⟨some (((entry &&& pageBits) ||| ((page ++ 0#12) &&& addressBits)).extractLsb' 12 52),
    fun offset => congrArg some ?_⟩
  apply BitVec.eq_of_getLsbD_eq
  intro i hi
  rw [BitVec.getLsbD_append]
  by_cases hlow : i < 12
  · simp only [BitVec.getLsbD_or, BitVec.getLsbD_and, BitVec.getLsbD_append, hpage i hlow,
      haddress i hlow, hlow, Bool.and_false, Bool.and_true, Bool.false_or, if_true]
  · have hback : 12 + (i - 12) = i := by omega
    have hwidth : i - 12 < 52 := by omega
    simp only [BitVec.getLsbD_or, BitVec.getLsbD_and, BitVec.getLsbD_append, hlow,
      BitVec.getLsbD_extractLsb', hback, hwidth, decide_true, Bool.true_and, if_false]

/-- A paged translation after another. -/
theorem Paged.bind {f g : Word → Option Word} (hf : Paged f) (hg : Paged g) :
    Paged fun x => (f x).bind g := by
  intro page
  obtain ⟨target, htarget⟩ := hf.exists_target page
  cases target with
  | none =>
    refine ⟨none, fun offset => ?_⟩
    dsimp only
    rw [htarget offset]
    rfl
  | some next =>
    obtain ⟨target', htarget'⟩ := hg.exists_target next
    refine ⟨target', fun offset => ?_⟩
    dsimp only
    rw [htarget offset]
    exact htarget' offset

/-- Moving by a whole number of pages. -/
theorem paged_add (base : PageNumber) : Paged fun x => some (x + (base ++ 0#12)) := by
  intro page
  refine ⟨some (page + base), fun offset => congrArg some ?_⟩
  apply BitVec.eq_of_toNat_eq
  have hpage := page.isLt
  have hbase := base.isLt
  have hoffset := offset.isLt
  rw [BitVec.toNat_add, toNat_append_eq, toNat_append_eq, toNat_append_eq, BitVec.toNat_add,
    BitVec.toNat_zero]
  omega

/-! ## Pages and offsets -/

/-- Every address is a page number and an offset. -/
theorem exists_append (x : Word) : ∃ (page : PageNumber) (offset : PageOffset), x = page ++ offset := by
  refine ⟨x.extractLsb' 12 52, x.setWidth 12, ?_⟩
  apply BitVec.eq_of_getLsbD_eq
  intro i hi
  simp only [BitVec.getLsbD_append, BitVec.getLsbD_extractLsb', BitVec.getLsbD_setWidth]
  grind

/-- The page mask clears the offset. -/
theorem append_and_pageMask (page : PageNumber) (offset : PageOffset) :
    (page ++ offset : Word) &&& fieldMask 12 52 = page ++ 0#12 := by
  apply BitVec.eq_of_getLsbD_eq
  intro i hi
  simp only [BitVec.getLsbD_and, BitVec.getLsbD_append, getLsbD_fieldMask, BitVec.getLsbD_zero]
  grind

/-- Addresses with the same masked page share their page number. -/
theorem append_zero_inj {page page' : PageNumber}
    (h : (page ++ 0#12 : Word) = page' ++ 0#12) : page = page' := by
  have hnumber := congrArg (fun w : Word => w.extractLsb' 12 52) h
  have hwhole : ∀ q : PageNumber, (q ++ 0#12 : Word).extractLsb' 12 52 = q := fun q => by
    apply BitVec.eq_of_getLsbD_eq
    intro i hi
    simp only [BitVec.getLsbD_extractLsb', BitVec.getLsbD_append, hi]
    grind
  rwa [hwhole, hwhole] at hnumber

/-- Fields above the offset are fields of the page number. -/
theorem extractLsb'_append (page : PageNumber) (offset : PageOffset) (k n : ℕ) :
    (page ++ offset : Word).extractLsb' (12 + k) n = page.extractLsb' k n := by
  apply BitVec.eq_of_getLsbD_eq
  intro i hi
  have hlow : ¬12 + k + i < 12 := by omega
  have hback : 12 + k + i - 12 = k + i := by omega
  simp only [BitVec.getLsbD_extractLsb', BitVec.getLsbD_append, hlow, hback, if_false]

/-- Moving inside a page moves the offset. -/
theorem append_add {page : PageNumber} {offset : PageOffset} {i : ℕ} (h : offset.toNat + i < 4096) :
    (page ++ offset : Word) + BitVec.ofNat 64 i = page ++ (offset + BitVec.ofNat 12 i) := by
  apply BitVec.eq_of_toNat_eq
  have hpage := page.isLt
  rw [BitVec.toNat_add, toNat_append_eq, toNat_append_eq, BitVec.toNat_add, BitVec.toNat_ofNat,
    BitVec.toNat_ofNat]
  omega

/-- A paged translation keeps the distance of two addresses of a page. -/
theorem Paged.add {f : Word → Option Word} (hf : Paged f) {x y : Word} (h : f x = some y) {i : ℕ}
    (hi : y.toNat % 4096 + i < 4096) : f (x + BitVec.ofNat 64 i) = some (y + BitVec.ofNat 64 i) := by
  obtain ⟨page, offset, rfl⟩ := exists_append x
  obtain ⟨target, htarget⟩ := hf.exists_target page
  have hat := htarget offset
  rw [h] at hat
  cases target with
  | none => cases hat
  | some next =>
    have hy : y = next ++ offset := Option.some.inj hat
    have hoffset : offset.toNat + i < 4096 := by
      have hlt := offset.isLt
      rw [hy, toNat_append_eq] at hi
      omega
    rw [hy, append_add hoffset, append_add hoffset]
    exact htarget _

end Rkhv.PagedTranslation
