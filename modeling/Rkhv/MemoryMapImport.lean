import Rkhv.PageRuns
import Rkhv.FreePages

/-!
# Import of the firmware memory map

The last loop of `efi_main` copies the firmware's memory descriptors into the
chainload page and merges a descriptor into the one before it when the two are
adjacent and equally usable. The loop is read as the merge of a list; the pages
marked usable are those of the usable descriptors of the part that fits.
-/

namespace Rkhv.MemoryMapImport

open ByteMemory HostTypes PageRuns

/-- `EFI_MEMORY_TYPE`, as far as the loop tells its values apart. -/
inductive EfiMemoryType where
  | reservedMemoryType
  | loaderCode
  | loaderData
  | bootServicesCode
  | bootServicesData
  | runtimeServicesCode
  | runtimeServicesData
  | conventionalMemory
  | unusableMemory
  | acpiReclaimMemory
  | acpiMemoryNvs
  | memoryMappedIo
  | memoryMappedIoPortSpace
  | palCode
  /-- Any other value, for the `default` case. -/
  | other (value : BitVec 32)
  deriving DecidableEq

/-- `EFI_MEMORY_DESCRIPTOR`, as far as the loop reads it. -/
structure EfiMemoryDescriptor where
  memoryType : EfiMemoryType
  physicalStart : Word
  numberOfPages : Word
  deriving DecidableEq

/-- The `switch` over the memory type. -/
def usableType : EfiMemoryType → Bool
  | .loaderCode | .loaderData | .bootServicesCode | .bootServicesData | .conventionalMemory => true
  | .reservedMemoryType | .runtimeServicesCode | .runtimeServicesData | .unusableMemory
  | .acpiReclaimMemory | .acpiMemoryNvs | .memoryMappedIo | .memoryMappedIoPortSpace | .palCode
  | .other _ => false

/-- A firmware descriptor as an entry of the chainload page. -/
def chainloadDescriptor (desc : EfiMemoryDescriptor) : ChainloadMmapDesc :=
  ⟨desc.physicalStart, desc.numberOfPages.setWidth 63, usableType desc.memoryType⟩

/-- The test that merges a descriptor into the previous entry. -/
def Mergeable (prev desc : ChainloadMmapDesc) : Prop :=
  prev.usable = desc.usable ∧
    prev.physicalAddress + prev.pages.setWidth 64 * pageSize = desc.physicalAddress

instance (prev desc : ChainloadMmapDesc) : Decidable (Mergeable prev desc) :=
  inferInstanceAs (Decidable (_ ∧ _))

/-- The import loop from the descriptors that remain, with the map written so
far, the index of the next descriptor and the index of the last entry. -/
def importFrom (mmap : EfiMmap) (efiMmapIndex : ℕ) (outMmapIndex : Fin rkhvMaxEfiMmapDescriptors) :
    List EfiMemoryDescriptor → EfiMmap
  | [] => mmap
  | desc :: rest =>
    let prev := mmap[outMmapIndex]
    let next := chainloadDescriptor desc
    if efiMmapIndex ≠ 0 ∧ Mergeable prev next then
      importFrom (mmap.set outMmapIndex { prev with pages := prev.pages + next.pages })
        (efiMmapIndex + 1) outMmapIndex rest
    else
      let outIndex := if efiMmapIndex ≠ 0 then outMmapIndex.val + 1 else outMmapIndex.val
      if h : outIndex < rkhvMaxEfiMmapDescriptors then
        importFrom (mmap.set outIndex next) (efiMmapIndex + 1) ⟨outIndex, h⟩ rest
      else mmap

/-- The map of a zeroed chainload page. -/
def emptyMmap : EfiMmap := Vector.replicate rkhvMaxEfiMmapDescriptors ⟨0, 0, false⟩

/-- The loop of `efi_main` that fills `efi_mmap_usable`. -/
def importMmap (descs : List EfiMemoryDescriptor) : EfiMmap :=
  importFrom emptyMmap 0 ⟨0, rkhvMaxEfiMmapDescriptors_pos⟩ descs

/-! ## The merge of a list -/

/-- Add a descriptor to a merged list, newest entry first. -/
def mergeOnto : List ChainloadMmapDesc → ChainloadMmapDesc → List ChainloadMmapDesc
  | [], desc => [desc]
  | prev :: acc, desc =>
    if Mergeable prev desc then { prev with pages := prev.pages + desc.pages } :: acc
    else desc :: prev :: acc

/-- Merge a list of descriptors, newest entry first. -/
def mergeRev (descs : List EfiMemoryDescriptor) : List ChainloadMmapDesc :=
  (descs.map chainloadDescriptor).foldl mergeOnto []

/-- What a memory map says when each run of adjacent, equally usable
descriptors is written as one entry. -/
def mergedMap (descs : List EfiMemoryDescriptor) : List ChainloadMmapDesc := (mergeRev descs).reverse

/-- The entries of a list, followed by empty ones. -/
def Lists (mmap : EfiMmap) (entries : List ChainloadMmapDesc) : Prop :=
  mmap.toList = entries ++ List.replicate (rkhvMaxEfiMmapDescriptors - entries.length) ⟨0, 0, false⟩

theorem length_mergeOnto (acc : List ChainloadMmapDesc) (desc : ChainloadMmapDesc) :
    acc.length ≤ (mergeOnto acc desc).length ∧ mergeOnto acc desc ≠ [] := by
  cases acc with
  | nil => simp [mergeOnto]
  | cons prev acc =>
    rw [mergeOnto]
    split <;> simp

theorem length_foldl_mergeOnto (descs acc : List ChainloadMmapDesc) :
    acc.length ≤ (descs.foldl mergeOnto acc).length := by
  induction descs generalizing acc with
  | nil => exact Nat.le_refl _
  | cons desc descs ih => exact (length_mergeOnto acc desc).1.trans (ih _)

/-- A round that merges rewrites the last entry. -/
theorem Lists.set_last {mmap : EfiMmap} {prev : ChainloadMmapDesc} {acc : List ChainloadMmapDesc}
    (desc : ChainloadMmapDesc) (h : acc.length < rkhvMaxEfiMmapDescriptors) (hl : Lists mmap (prev :: acc).reverse) :
    mmap[acc.length] = prev ∧ Lists (mmap.set acc.length desc) (desc :: acc).reverse := by
  simp only [Lists, List.reverse_cons, List.append_assoc, List.singleton_append,
    List.length_append, List.length_reverse, List.length_singleton] at hl ⊢
  constructor
  · have hget : mmap.toList[acc.length]? = some prev := by
      rw [hl, List.getElem?_append_right (by simp)]
      simp
    rw [Vector.getElem?_toList, Vector.getElem?_eq_getElem h] at hget
    exact Option.some_inj.mp hget
  · rw [Vector.toList_set, hl, List.set_append_right _ _ (by simp)]
    simp

/-- A round that does not merge writes the next entry. -/
theorem Lists.set_next {mmap : EfiMmap} {desc : ChainloadMmapDesc} (acc : List ChainloadMmapDesc)
    {h : acc.length < rkhvMaxEfiMmapDescriptors} (hl : Lists mmap acc.reverse) :
    Lists (mmap.set acc.length desc) (desc :: acc).reverse := by
  simp only [Lists, List.reverse_cons, List.append_assoc, List.singleton_append,
    List.length_append, List.length_reverse, List.length_singleton] at hl ⊢
  have hsplit : rkhvMaxEfiMmapDescriptors - acc.length =
      rkhvMaxEfiMmapDescriptors - (acc.length + 1) + 1 := by omega
  rw [Vector.toList_set, hl, List.set_append_right _ _ (by simp), hsplit, List.replicate_succ]
  simp

/-- The loop writes the merge of the descriptors up to the first one that finds
no entry left. -/
theorem importFrom_lists (descs : List EfiMemoryDescriptor) :
    ∀ (mmap : EfiMmap) (index : ℕ) (out : Fin rkhvMaxEfiMmapDescriptors)
      (acc : List ChainloadMmapDesc), (index = 0 ↔ acc = []) → out.val = acc.length - 1 →
      acc.length ≤ rkhvMaxEfiMmapDescriptors → Lists mmap acc.reverse →
      ∃ imported rest, descs = imported ++ rest ∧
        Lists (importFrom mmap index out descs)
          ((imported.map chainloadDescriptor).foldl mergeOnto acc).reverse ∧
        (rest ≠ [] →
          rkhvMaxEfiMmapDescriptors < ((descs.map chainloadDescriptor).foldl mergeOnto acc).length) := by
  induction descs with
  | nil => exact fun mmap _ _ acc _ _ _ hl => ⟨[], [], rfl, hl, fun h => absurd rfl h⟩
  | cons desc descs ih =>
    intro mmap index out acc hindex hout hlen hl
    -- the round that adds `desc` to the merged list, and the rounds after it
    have hstep : ∀ mmap' out' acc', acc' = mergeOnto acc (chainloadDescriptor desc) →
        out'.val = acc'.length - 1 → acc'.length ≤ rkhvMaxEfiMmapDescriptors →
        Lists mmap' acc'.reverse → ∃ imported rest, desc :: descs = imported ++ rest ∧
          Lists (importFrom mmap' (index + 1) out' descs)
            ((imported.map chainloadDescriptor).foldl mergeOnto acc).reverse ∧
          (rest ≠ [] → rkhvMaxEfiMmapDescriptors <
            (((desc :: descs).map chainloadDescriptor).foldl mergeOnto acc).length) := by
      intro mmap' out' acc' hacc hout' hlen' hl'
      have hne : acc' ≠ [] := hacc ▸ (length_mergeOnto acc _).2
      obtain ⟨imported, rest, hd, hi, hrest⟩ := ih mmap' (index + 1) out' acc'
        (by simp [hne]) hout' hlen' hl'
      refine ⟨desc :: imported, rest, by rw [hd, List.cons_append], ?_, ?_⟩
      · rw [List.map_cons, List.foldl_cons, ← hacc]
        exact hi
      · rw [List.map_cons, List.foldl_cons, ← hacc]
        exact hrest
    rw [importFrom]
    cases acc with
    | nil =>
      obtain rfl : index = 0 := hindex.mpr rfl
      obtain rfl : out = ⟨0, by decide⟩ := Fin.ext hout
      simp only [ne_eq, not_true_eq_false, false_and, if_false]
      rw [dif_pos (by decide)]
      refine hstep _ _ [chainloadDescriptor desc] rfl rfl ?_ (hl.set_next [])
      rw [List.length_singleton]
      decide

    | cons prev acc =>
      have hz : index ≠ 0 := fun h => absurd (hindex.mp h) (List.cons_ne_nil _ _)
      have hlt : acc.length < rkhvMaxEfiMmapDescriptors := hlen
      obtain rfl : out = ⟨acc.length, hlt⟩ := Fin.ext hout
      have hprev : mmap[acc.length] = prev := (hl.set_last prev hlt).1
      simp only [Fin.getElem_fin, hprev, ne_eq, hz, not_false_eq_true, true_and, if_true]
      by_cases hm : Mergeable prev (chainloadDescriptor desc)
      · rw [if_pos hm]
        refine hstep _ _ ({ prev with pages := prev.pages + (chainloadDescriptor desc).pages } :: acc)
          (by rw [mergeOnto, if_pos hm]) rfl hlen ?_
        exact (hl.set_last _ hlt).2
      · rw [if_neg hm]
        by_cases hroom : acc.length + 1 < rkhvMaxEfiMmapDescriptors
        · rw [dif_pos hroom]
          refine hstep _ _ (chainloadDescriptor desc :: prev :: acc) (by rw [mergeOnto, if_neg hm]) rfl
            hroom ?_
          exact hl.set_next (prev :: acc)
        · rw [dif_neg hroom]
          refine ⟨[], desc :: descs, rfl, hl, fun _ => ?_⟩
          have hmono := length_foldl_mergeOnto (descs.map chainloadDescriptor)
            (chainloadDescriptor desc :: prev :: acc)
          rw [List.map_cons, List.foldl_cons, mergeOnto, if_neg hm]
          simp only [List.length_cons] at hmono
          omega

/-! ## Pages of the merge -/

/-- Pages of an entry. -/
def descPages (desc : ChainloadMmapDesc) : List Word :=
  runPages desc.physicalAddress desc.pages.toNat

/-- A page-aligned entry whose end address does not wrap at 64 bits. -/
def DescFits (desc : ChainloadMmapDesc) : Prop :=
  desc.physicalAddress.toNat % 4096 = 0 ∧
    desc.physicalAddress.toNat + desc.pages.toNat * 4096 < 2 ^ 64

/-- What the firmware promises of a descriptor: it is page aligned, has fewer
than `2 ^ 63` pages and its end address does not wrap at 64 bits. -/
def FirmwareDescriptor (desc : EfiMemoryDescriptor) : Prop :=
  desc.physicalStart.toNat % 4096 = 0 ∧ desc.numberOfPages.toNat < 2 ^ 63 ∧
    desc.physicalStart.toNat + desc.numberOfPages.toNat * 4096 < 2 ^ 64

/-- Pages of a firmware descriptor. -/
def efiPages (desc : EfiMemoryDescriptor) : List Word :=
  runPages desc.physicalStart desc.numberOfPages.toNat

/-- A firmware descriptor keeps its pages as an entry. -/
theorem chainloadDescriptor_fits {desc : EfiMemoryDescriptor} (h : FirmwareDescriptor desc) :
    DescFits (chainloadDescriptor desc) ∧ descPages (chainloadDescriptor desc) = efiPages desc := by
  obtain ⟨halign, hpages, hend⟩ := h
  have hwidth : (chainloadDescriptor desc).pages.toNat = desc.numberOfPages.toNat := by
    rw [chainloadDescriptor, BitVec.toNat_setWidth]
    omega
  exact ⟨⟨halign, by rw [hwidth]; exact hend⟩, by rw [descPages, hwidth]; rfl⟩

/-- Merging two entries keeps their pages. -/
theorem descPages_merge {prev desc : ChainloadMmapDesc} (hp : DescFits prev) (hd : DescFits desc)
    (hm : Mergeable prev desc) : DescFits { prev with pages := prev.pages + desc.pages } ∧
      descPages { prev with pages := prev.pages + desc.pages } = descPages prev ++ descPages desc := by
  have hpend := hp.2
  have hdend := hd.2
  have hsize : pageSize.toNat = 4096 := rfl
  have hend : prev.physicalAddress.toNat + prev.pages.toNat * 4096 = desc.physicalAddress.toNat := by
    rw [← hm.2, BitVec.toNat_add, BitVec.toNat_mul, BitVec.toNat_setWidth, hsize]
    omega
  have hsum : (prev.pages + desc.pages).toNat = prev.pages.toNat + desc.pages.toNat := by
    rw [BitVec.toNat_add]
    omega
  refine ⟨⟨hp.1, ?_⟩, ?_⟩
  · change prev.physicalAddress.toNat + (prev.pages + desc.pages).toNat * 4096 < 2 ^ 64
    rw [hsum, Nat.add_mul, ← Nat.add_assoc, hend]
    exact hdend
  · rw [descPages, hsum]
    exact runPages_append hend

/-- A page in an entry of the given usability. -/
def Covers (entries : List ChainloadMmapDesc) (usable : Bool) (page : Word) : Prop :=
  ∃ desc ∈ entries, desc.usable = usable ∧ page ∈ descPages desc

/-- Adding a descriptor adds its pages under its usability. -/
theorem covers_mergeOnto {acc : List ChainloadMmapDesc} {desc : ChainloadMmapDesc}
    (hacc : ∀ e ∈ acc, DescFits e) (hd : DescFits desc) :
    (∀ e ∈ mergeOnto acc desc, DescFits e) ∧ ∀ usable page,
      Covers (mergeOnto acc desc) usable page ↔
        Covers acc usable page ∨ desc.usable = usable ∧ page ∈ descPages desc := by
  cases acc with
  | nil =>
    refine ⟨fun e he => ?_, fun usable page => ?_⟩
    · rw [List.mem_singleton.mp he]
      exact hd
    · simp [Covers, mergeOnto]
  | cons prev acc =>
    rw [List.forall_mem_cons] at hacc
    rw [mergeOnto]
    by_cases hm : Mergeable prev desc
    · obtain ⟨hfits, hpages⟩ := descPages_merge hacc.1 hd hm
      rw [if_pos hm]
      refine ⟨List.forall_mem_cons.mpr ⟨hfits, hacc.2⟩, fun usable page => ?_⟩
      simp only [Covers, List.exists_mem_cons_iff, hpages, List.mem_append, ← hm.1]
      constructor
      · rintro (⟨hu, hp | hp⟩ | h)
        · exact Or.inl (Or.inl ⟨hu, hp⟩)
        · exact Or.inr ⟨hu, hp⟩
        · exact Or.inl (Or.inr h)
      · rintro ((⟨hu, hp⟩ | h) | ⟨hu, hp⟩)
        · exact Or.inl ⟨hu, Or.inl hp⟩
        · exact Or.inr h
        · exact Or.inl ⟨hu, Or.inr hp⟩
    · rw [if_neg hm]
      refine ⟨List.forall_mem_cons.mpr ⟨hd, List.forall_mem_cons.mpr hacc⟩, fun usable page => ?_⟩
      simp only [Covers, List.exists_mem_cons_iff (a := desc)]
      exact or_comm

/-- The merge of a list covers the pages of the list. -/
theorem covers_foldl_mergeOnto {descs : List EfiMemoryDescriptor}
    (hdescs : ∀ d ∈ descs, FirmwareDescriptor d) :
    ∀ acc : List ChainloadMmapDesc, (∀ e ∈ acc, DescFits e) →
      (∀ e ∈ (descs.map chainloadDescriptor).foldl mergeOnto acc, DescFits e) ∧
      ∀ usable page, Covers ((descs.map chainloadDescriptor).foldl mergeOnto acc) usable page ↔
        Covers acc usable page ∨
          ∃ d ∈ descs, usableType d.memoryType = usable ∧ page ∈ efiPages d := by
  induction descs with
  | nil => simp
  | cons desc descs ih =>
    intro acc hacc
    rw [List.forall_mem_cons] at hdescs
    obtain ⟨hfits, hpages⟩ := chainloadDescriptor_fits hdescs.1
    obtain ⟨hstep, hcovers⟩ := covers_mergeOnto hacc hfits
    obtain ⟨hall, hrest⟩ := ih hdescs.2 _ hstep
    refine ⟨hall, fun usable page => ?_⟩
    rw [List.map_cons, List.foldl_cons, hrest, hcovers, hpages, List.exists_mem_cons_iff, or_assoc]
    rfl

/-- No two consecutive entries of a merge can still be merged. -/
theorem isChain_mergeOnto {acc : List ChainloadMmapDesc} {desc : ChainloadMmapDesc}
    (h : acc.IsChain fun later earlier => ¬Mergeable earlier later) :
    (mergeOnto acc desc).IsChain fun later earlier => ¬Mergeable earlier later := by
  cases acc with
  | nil => exact List.isChain_singleton desc
  | cons prev acc =>
    rw [mergeOnto]
    split
    · -- the grown entry keeps its start and its usability
      cases acc with
      | nil => exact List.isChain_singleton _
      | cons older acc =>
        rw [List.isChain_cons_cons] at h ⊢
        exact h
    · rename_i hm
      exact List.isChain_cons_cons.mpr ⟨hm, h⟩

/-- The whole merge has no two consecutive entries to merge. -/
theorem isChain_mergedMap (descs : List EfiMemoryDescriptor) :
    (mergedMap descs).IsChain fun earlier later => ¬Mergeable earlier later := by
  have hfold : ∀ (l acc : List ChainloadMmapDesc),
      acc.IsChain (fun later earlier => ¬Mergeable earlier later) →
      (l.foldl mergeOnto acc).IsChain fun later earlier => ¬Mergeable earlier later := by
    intro l
    induction l with
    | nil => exact fun acc h => h
    | cons desc l ih => exact fun acc h => ih _ (isChain_mergeOnto h)
  rw [mergedMap, List.isChain_reverse]
  exact hfold _ [] List.isChain_nil

/-- The part of the firmware's map that the loop gets to. -/
structure Imported (descs imported : List EfiMemoryDescriptor) : Prop where
  isPrefix : imported <+: descs
  /-- The chainload page lists the merge of the part, then empty entries. -/
  lists : Lists (importMmap descs) (mergedMap imported)
  /-- A map whose merge fits is imported as a whole. -/
  whole : (mergedMap descs).length ≤ rkhvMaxEfiMmapDescriptors → imported = descs

theorem exists_imported (descs : List EfiMemoryDescriptor) : ∃ imported, Imported descs imported := by
  obtain ⟨imported, rest, hd, hl, hrest⟩ := importFrom_lists descs emptyMmap 0 ⟨0, by decide⟩ []
    (by simp) rfl (Nat.zero_le _) (by simp [Lists, emptyMmap])
  refine ⟨imported, ⟨rest, hd.symm⟩, hl, fun hlen => ?_⟩
  have hnil : rest = [] := by
    by_contra hne
    have hlt := hrest hne
    rw [mergedMap, mergeRev, List.length_reverse] at hlen
    omega
  rw [hd, hnil, List.append_nil]

/-- Entries past the listed ones cover nothing. -/
theorem Lists.covers {mmap : EfiMmap} {entries : List ChainloadMmapDesc} (h : Lists mmap entries)
    (usable : Bool) (page : Word) : Covers mmap.toList usable page ↔ Covers entries usable page := by
  have hempty : ¬Covers (List.replicate (rkhvMaxEfiMmapDescriptors - entries.length)
      ⟨0, 0, false⟩) usable page := by
    rintro ⟨desc, hd, _, hp⟩
    rw [(List.mem_replicate.mp hd).2] at hp
    cases hp
  simp only [Covers] at hempty ⊢
  rw [h]
  simp only [List.mem_append, or_and_right, exists_or]
  exact or_iff_left hempty

/-- The imported map marks exactly the pages of the imported descriptors. -/
theorem Imported.covers {descs imported : List EfiMemoryDescriptor} (h : Imported descs imported)
    (hdescs : ∀ d ∈ descs, FirmwareDescriptor d) (usable : Bool) (page : Word) :
    Covers (importMmap descs).toList usable page ↔
      ∃ d ∈ imported, usableType d.memoryType = usable ∧ page ∈ efiPages d := by
  have hall := (covers_foldl_mergeOnto
    (fun d hd => hdescs d (h.isPrefix.subset hd)) [] (by simp)).2 usable page
  have hnil : ¬Covers [] usable page := by simp [Covers]
  rw [or_iff_right hnil] at hall
  rw [h.lists.covers, ← hall]
  simp only [Covers, mergedMap, mergeRev, List.mem_reverse]

/-- The import is exact: the chainload page holds the merge of a prefix of the
firmware's map, of all of it when the merge fits, no two consecutive entries can
still be merged, and a page is marked usable (or not usable) exactly when a
descriptor of that prefix of a usable (or other) type covers it; so a usable
page always has a usable descriptor. -/
theorem importMmap_exact (descs : List EfiMemoryDescriptor)
    (hdescs : ∀ d ∈ descs, FirmwareDescriptor d) :
    (∃ imported, imported <+: descs ∧ Lists (importMmap descs) (mergedMap imported) ∧
      ((mergedMap descs).length ≤ rkhvMaxEfiMmapDescriptors → imported = descs) ∧
      ∀ usable page, Covers (importMmap descs).toList usable page ↔
        ∃ d ∈ imported, usableType d.memoryType = usable ∧ page ∈ efiPages d) ∧
    (∀ part, (mergedMap part).IsChain fun earlier later => ¬Mergeable earlier later) ∧
    ∀ page, Covers (importMmap descs).toList true page →
      ∃ d ∈ descs, usableType d.memoryType = true ∧ page ∈ efiPages d := by
  obtain ⟨imported, h⟩ := exists_imported descs
  refine ⟨⟨imported, h.isPrefix, h.lists, h.whole, h.covers hdescs⟩, isChain_mergedMap,
    fun page hp => ?_⟩
  obtain ⟨d, hd, hu, hmem⟩ := (h.covers hdescs true page).mp hp
  exact ⟨d, h.isPrefix.subset hd, hu, hmem⟩

/-- The last page of two adjacent usable descriptors is covered. -/
theorem importMmap_exact_three :
    Covers (importMmap [⟨.conventionalMemory, 0x1000, 2⟩, ⟨.loaderData, 0x3000, 1⟩,
      ⟨.reservedMemoryType, 0x4000, 4⟩]).toList true 0x3000 := by
  obtain ⟨⟨imported, _, _, hwhole, hcovers⟩, _⟩ := importMmap_exact
    [⟨.conventionalMemory, 0x1000, 2⟩, ⟨.loaderData, 0x3000, 1⟩, ⟨.reservedMemoryType, 0x4000, 4⟩]
    (by simp [FirmwareDescriptor])
  rw [hwhole (by decide)] at hcovers
  exact (hcovers true 0x3000).mpr ⟨⟨.loaderData, 0x3000, 1⟩, by simp, rfl, by decide⟩

end Rkhv.MemoryMapImport
