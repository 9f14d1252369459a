import Rkhv.BootWindow
import Rkhv.RadixWalk

/-!
# Boot page tables as a radix tree

Below a PML4 that started zeroed the tables form a tree of fresh pages whose
entries point to tables with all rights, and whose last level holds the mapped
pages. The window on physical memory counts as a leaf of the root. One call of
`paging_map_page` links the tables that are missing and stores one page; when
it fails half way, no address leads anywhere else than before.
-/

namespace Rkhv.BootTables

open ByteMemory WordFields HostTypes StateOutcome BootPagePool VmGuestPaging ArchitecturalWalk
  NestedWalk RightsWalk RadixWalk BootPaging BootWindow

/-- What an entry of a level means, next to the table of a window. -/
def bootDecode (window : Option Frame) (level : ℕ) (entry : Word) : Entry Frame Word :=
  if entry &&& ptePresent = 0 then .absent
  else if level = 3 then .leaf entry
  else if level = 0 ∧ window = some (frameOf entry) then .leaf entry
  else .table (frameOf entry)

/-- The tables in a memory. -/
def bootTables (window : Option Frame) (m : Memory) : Tables Frame Slot Word := fun level f i =>
  bootDecode window level (slotWord m f i)

/-- Slots of an address, from the PML4 downwards. -/
def bootPath (va : Word) : List Slot := [slotOf 4 va, slotOf 3 va, slotOf 2 va, slotOf 1 va]

/-- Where a path ends below a PML4. -/
def bootFollow (window : Option Frame) (m : Memory) (pml4 : Frame) (path : List Slot) :
    End Frame Slot Word := follow (bootTables window m) 0 pml4 path

/-- The frame is the PML4 or was given by a call so far. -/
def Used (firmware : BootServices) (start : ℕ) (pml4 : Frame) (l : Loader) (f : Frame) : Prop :=
  f = pml4 ∨ ∃ k, start ≤ k ∧ k < l.allocateCalls ∧ GivenBy firmware k f

variable {firmware : BootServices} {start : ℕ} {pml4 : Frame} {l l' : Loader}

/-- A frame in use is given by no later call. -/
theorem Used.not_given {f : Frame} {k : ℕ} (h : Used firmware start pml4 l f)
    (hfresh : FreshPages firmware start pml4) (hstart : start ≤ l.allocateCalls)
    (hk : l.allocateCalls ≤ k) : ¬GivenBy firmware k f := by
  intro hgiven
  have hk' := hstart.trans hk
  obtain rfl | ⟨j, hj, hlt, hf⟩ := h
  · exact hfresh.pml4 k hk' hgiven
  · have hsame := hfresh.disjoint j k f hj hk' hf hgiven
    omega

/-- A frame in use is not given again. -/
theorem Used.ne_given {f g : Frame} (h : Used firmware start pml4 l f)
    (hfresh : FreshPages firmware start pml4) (hstart : start ≤ l.allocateCalls)
    (hg : GivenBy firmware l.allocateCalls g) : f ≠ g := by
  intro he
  rw [← he] at hg
  exact h.not_given hfresh hstart (Nat.le_refl _) hg

theorem Used.mono {f : Frame} (h : Used firmware start pml4 l f)
    (hcalls : l.allocateCalls ≤ l'.allocateCalls) : Used firmware start pml4 l' f := by
  obtain rfl | ⟨k, hk, hlt, hgiven⟩ := h
  · exact Or.inl rfl
  · exact Or.inr ⟨k, hk, Nat.lt_of_lt_of_le hlt hcalls, hgiven⟩

/-- The entry is empty or points to a table. -/
def EmptyOrTable (e : Word) : Prop :=
  e &&& ptePresent = 0 ∨ ∃ g, e = tableEntry (frameAddress g)

/-- A window below the two slots of the PML4, apart from all other tables. -/
structure WindowOk (firmware : BootServices) (start : ℕ) (pml4 : Frame) (l : Loader)
    (pdpt pds : Frame) : Prop where
  tables : PhysicalWindow l.memory pdpt pds
  low : slotWord l.memory pml4 0 = tableEntry (frameAddress pdpt)
  high : slotWord l.memory pml4 2 = tableEntry (frameAddress pdpt)
  pdptUsed : Used firmware start pml4 l pdpt
  pdsUsed : ∀ j, Used firmware start pml4 l (directory pds j)
  apart : ∀ p t, p.length < 4 → bootFollow (some pdpt) l.memory pml4 p = .table t →
    t ≠ pdpt ∧ ∀ j, t ≠ directory pds j

/-- The tables below a PML4 are in order: no table is reached by two paths,
their upper entries are empty or point to tables, and all pages are in use. -/
structure TablesOk (firmware : BootServices) (start : ℕ) (pml4 : Frame) (window : Option Frame)
    (l : Loader) : Prop where
  calls : start ≤ l.allocateCalls
  separate : Separate (bootTables window l.memory) pml4 4
  entries : ∀ p t i, p.length < 3 → bootFollow window l.memory pml4 p = .table t →
    EmptyOrTable (slotWord l.memory t i)
  used : ∀ p t, p.length < 4 → bootFollow window l.memory pml4 p = .table t →
    Used firmware start pml4 l t
  windowOk : ∀ pdpt, window = some pdpt → ∃ pds, WindowOk firmware start pml4 l pdpt pds

variable {window : Option Frame} {m m' : Memory}

/-! ## Entries -/

theorem bootTables_of_zero {f : Frame} (h : ZeroFrame m f) (level : ℕ) (i : Slot) :
    bootTables window m level f i = .absent := by
  rw [bootTables, h.slotWord, bootDecode, if_pos (by decide)]

theorem bootTables_congr {f : Frame} (h : SameFrame m m' f) (level : ℕ) (i : Slot) :
    bootTables window m' level f i = bootTables window m level f i := by
  rw [bootTables, bootTables, h.slotWord]

theorem bootTables_store (m : Memory) (f g : Frame) (i j : Slot) (entry : Word) (level : ℕ) :
    bootTables window (writeQword m (slotAddress f i) entry) level g j =
      if g = f ∧ j = i then bootDecode window level entry else bootTables window m level g j := by
  rw [bootTables, slotWord_writeSlot]
  split <;> rfl

theorem tableEntry_present (pa : Word) : ¬tableEntry pa &&& ptePresent = 0 :=
  present (tableEntry_bits pa).1

theorem frameOf_tableEntry (f : Frame) : frameOf (tableEntry (frameAddress f)) = f := by
  have hmask := and_frameMask (tableEntry (frameAddress f))
  have hfield : ptePhysicalAddressPage = fieldMask 12 40 := by decide
  rw [← hfield, tableEntry_and] at hmask
  exact (frameAddress_injective hmask).symm

/-- Above the page tables the entry of a table leads there, unless it is the window. -/
theorem bootDecode_tableEntry {level : ℕ} (h : level < 3) {f : Frame}
    (hwindow : level = 0 → window ≠ some f) :
    bootDecode window level (tableEntry (frameAddress f)) = .table f := by
  rw [bootDecode, if_neg (tableEntry_present _), if_neg (by omega), frameOf_tableEntry,
    if_neg fun hc => hwindow hc.1 hc.2]

theorem bootDecode_window (f : Frame) :
    bootDecode (some f) 0 (tableEntry (frameAddress f)) = .leaf (tableEntry (frameAddress f)) := by
  rw [bootDecode, if_neg (tableEntry_present _), if_neg (by decide), frameOf_tableEntry,
    if_pos ⟨rfl, rfl⟩]

theorem pageEntry_present (pa : Word) (permission : PagingPermission) :
    ¬pageEntry pa permission &&& ptePresent = 0 := present (pageEntry_bits pa permission).1

theorem bootDecode_pageEntry (pa : Word) (permission : PagingPermission) :
    bootDecode window 3 (pageEntry pa permission) = .leaf (pageEntry pa permission) := by
  rw [bootDecode, if_neg (pageEntry_present _ _), if_pos rfl]

/-- The entry behind one more slot of a path to a table. -/
theorem bootFollow_snoc {p : List Slot} {i : Slot} {x : Frame}
    (hx : bootFollow window m pml4 p = .table x) : bootFollow window m pml4 (p ++ [i]) =
      match bootTables window m p.length x i with
      | .absent => .absent
      | .table t => .table t
      | .leaf entry => .leaf entry [] := by
  rw [bootFollow, follow_append hx, Nat.zero_add, follow]
  cases bootTables window m p.length x i <;> rfl

/-! ## The walk follows the path -/

/-- Where a page entry leads. -/
def leafTranslation (entry va : Word) : Translation :=
  ⟨entryAddress entry 12 + va.toNat % 2 ^ 12, entry.getLsbD 1, !entry.getLsbD 63⟩

/-- The translation at the end of a path; a leaf above the page tables is the window. -/
def endTranslation (va : Word) : End Frame Slot Word → Except WalkFault Translation
  | .leaf entry [] => .ok (leafTranslation entry va)
  | .leaf _ (_ :: _) => .ok ⟨va.toNat % 2 ^ 39, true, true⟩
  | .table _ | .absent => .error .notPresent

/-- In a page table a present entry ends the walk. -/
theorem tableWalk_last (m : Memory) (f : Frame) (va : Word) :
    tableWalk m 1 f true true va = endTranslation va
      (follow (bootTables window m) 3 f [slotOf 1 va]) := by
  by_cases hpresent : slotWord m f (slotOf 1 va) &&& ptePresent = 0
  · have hdecode : bootTables window m 3 f (slotOf 1 va) = .absent := by
      rw [bootTables, bootDecode, if_pos hpresent]
    rw [tableWalk_absent hpresent, follow_absent hdecode, endTranslation]
  · have hdecode : bootTables window m 3 f (slotOf 1 va) = .leaf (slotWord m f (slotOf 1 va)) := by
      rw [bootTables, bootDecode, if_neg hpresent, if_pos rfl]
    have hbit : (slotWord m f (slotOf 1 va)).getLsbD 0 = true := by
      rw [and_present_eq_zero_iff, Bool.not_eq_false] at hpresent
      exact hpresent
    have hstep : tableWalk m 1 f true true va = walkRights (guestFormat bootProcessor) (hostRead m) 0
        (Translation.through ⟨(frameAddress f).toNat, true, true⟩ (slotWord m f (slotOf 1 va))
          (entryAddress (slotWord m f (slotOf 1 va)) 12)) va.toNat :=
      walkRights_table (hostRead_entryAt m 1 f va) hbit (not_reserved (Or.inl rfl)) rfl
    rw [hstep, follow_leaf hdecode, endTranslation, leafTranslation, walkRights, Translation.through,
      Bool.true_and, Bool.true_and]

/-- Above the page tables the walk goes down as the path does. -/
theorem tableWalk_down {level d : ℕ} {f : Frame} {va : Word} {rest : List Slot} (hd : d < 3)
    (hentry : EmptyOrTable (slotWord m f (slotOf (level + 1) va)))
    (hwindow : ∀ g, slotWord m f (slotOf (level + 1) va) = tableEntry (frameAddress g) →
      d = 0 → window ≠ some g)
    (hnext : ∀ g, bootTables window m d f (slotOf (level + 1) va) = .table g →
      tableWalk m level g true true va = endTranslation va (follow (bootTables window m) (d + 1) g rest)) :
    tableWalk m (level + 1) f true true va =
      endTranslation va (follow (bootTables window m) d f (slotOf (level + 1) va :: rest)) := by
  obtain habsent | ⟨g, hg⟩ := hentry
  · have hdecode : bootTables window m d f (slotOf (level + 1) va) = .absent := by
      rw [bootTables, bootDecode, if_pos habsent]
    rw [tableWalk_absent habsent, follow_absent hdecode, endTranslation]
  · have hdecode : bootTables window m d f (slotOf (level + 1) va) = .table g := by
      rw [bootTables, hg]
      exact bootDecode_tableEntry hd (hwindow g hg)
    rw [tableWalk_table hg, follow_table hdecode]
    exact hnext g hdecode

/-- The walk of an address ends where its path does. -/
theorem TablesOk.bootWalk_eq (h : TablesOk firmware start pml4 window l) (va : Word) :
    bootWalk l.memory pml4 va = endTranslation va (bootFollow window l.memory pml4 (bootPath va)) := by
  by_cases hwindow : ∃ g, slotWord l.memory pml4 (slotOf 4 va) = tableEntry (frameAddress g) ∧
      window = some g
  · obtain ⟨pdpt, hslot, rfl⟩ := hwindow
    obtain ⟨pds, hok⟩ := h.windowOk pdpt rfl
    have hdecode : bootTables (some pdpt) l.memory 0 pml4 (slotOf 4 va) =
        .leaf (tableEntry (frameAddress pdpt)) := by
      rw [bootTables, hslot, bootDecode_window]
    rw [bootFollow, bootPath, follow_leaf hdecode, endTranslation]
    exact (tableWalk_table hslot).trans (hok.tables.walk true true va)
  · have hroot := h.entries [] pml4 (slotOf 4 va) (by decide) (follow_nil _ _ _)
    refine tableWalk_down (by decide) hroot (fun g hg _ hc => hwindow ⟨g, hg, hc⟩) fun f₁ h₁ => ?_
    have hpath₁ : bootFollow window l.memory pml4 [slotOf 4 va] = .table f₁ := by
      rw [bootFollow, follow_table h₁, follow_nil]
    refine tableWalk_down (by decide) (h.entries _ _ _ (by simp) hpath₁)
      (fun _ _ hc => absurd hc (by decide)) fun f₂ h₂ => ?_
    have hpath₂ : bootFollow window l.memory pml4 [slotOf 4 va, slotOf 3 va] = .table f₂ := by
      rw [bootFollow, follow_table h₁, follow_table h₂, follow_nil]
    refine tableWalk_down (by decide) (h.entries _ _ _ (by simp) hpath₂)
      (fun _ _ hc => absurd hc (by decide)) fun f₃ _ => ?_
    exact tableWalk_last l.memory f₃ va

/-! ## Stores -/

/-- Where no frame in use changed, so is the window. -/
theorem WindowOk.of_same {pdpt pds : Frame} (h : WindowOk firmware start pml4 l pdpt pds)
    (hcalls : l.allocateCalls ≤ l'.allocateCalls)
    (hsame : ∀ f, Used firmware start pml4 l f → SameFrame l.memory l'.memory f)
    (hpaths : ∀ q, q.length ≤ 4 →
      bootFollow (some pdpt) l'.memory pml4 q = bootFollow (some pdpt) l.memory pml4 q) :
    WindowOk firmware start pml4 l' pdpt pds := by
  have hroot := hsame pml4 (Or.inl rfl)
  refine ⟨⟨fun j => ?_, fun j i => ?_⟩, ?_, ?_, h.pdptUsed.mono hcalls,
    fun j => (h.pdsUsed j).mono hcalls, fun p t hp ht => ?_⟩
  · rw [(hsame _ h.pdptUsed).slotWord, h.tables.links]
  · rw [(hsame _ (h.pdsUsed j)).slotWord, h.tables.pages]
  · rw [hroot.slotWord, h.low]
  · rw [hroot.slotWord, h.high]
  · rw [hpaths p hp.le] at ht
    exact h.apart p t hp ht

/-- Where no frame in use changed, the tables are as they were. -/
theorem TablesOk.of_same (h : TablesOk firmware start pml4 window l)
    (hcalls : l.allocateCalls ≤ l'.allocateCalls)
    (hsame : ∀ f, Used firmware start pml4 l f → SameFrame l.memory l'.memory f) :
    TablesOk firmware start pml4 window l' ∧ ∀ q, q.length ≤ 4 →
      bootFollow window l'.memory pml4 q = bootFollow window l.memory pml4 q := by
  have htables : ∀ p t, p.length < 4 → follow (bootTables window l.memory) 0 pml4 p = .table t →
      ∀ d i, bootTables window l'.memory d t i = bootTables window l.memory d t i :=
    fun p t hp ht d i => bootTables_congr (hsame t (h.used p t hp ht)) d i
  have hpaths : ∀ q, q.length ≤ 4 →
      bootFollow window l'.memory pml4 q = bootFollow window l.memory pml4 q := fun q hq =>
    follow_congr_of_tables htables hq
  refine ⟨⟨h.calls.trans hcalls, h.separate.congr htables, fun p t i hp ht => ?_, fun p t hp ht => ?_,
    fun pdpt hpdpt => ?_⟩, hpaths⟩
  · rw [hpaths p (by omega)] at ht
    rw [(hsame t (h.used p t (by omega) ht)).slotWord]
    exact h.entries p t i hp ht
  · rw [hpaths p hp.le] at ht
    exact (h.used p t hp ht).mono hcalls
  · subst hpdpt
    obtain ⟨pds, hwindow⟩ := h.windowOk pdpt rfl
    exact ⟨pds, hwindow.of_same hcalls hsame hpaths⟩

/-- The loader after a store in a slot. -/
def storing (l : Loader) (f : Frame) (i : Slot) (entry : Word) : Loader :=
  { l with memory := writeQword l.memory (slotAddress f i) entry }

section Store

variable {p : List Slot} {i : Slot} {x y : Frame} {entry : Word}

/-- A path that ends at an empty slot. -/
theorem slot_empty (hx : bootFollow window l.memory pml4 p = .table x)
    (habs : bootFollow window l.memory pml4 (p ++ [i]) = .absent) :
    bootTables window l.memory p.length x i = .absent ∧
      slotWord l.memory x i &&& ptePresent = 0 := by
  have hempty : bootTables window l.memory p.length x i = .absent := by
    rw [bootFollow_snoc hx] at habs
    split at habs
    · assumption
    · cases habs
    · cases habs
  refine ⟨hempty, ?_⟩
  by_contra hpresent
  rw [bootTables, bootDecode, if_neg hpresent] at hempty
  split at hempty
  · cases hempty
  split at hempty
  · cases hempty
  · cases hempty

/-- A store in an empty slot outside the window keeps the window. -/
theorem WindowOk.storing {pdpt pds : Frame} (h : WindowOk firmware start pml4 l pdpt pds)
    (hempty : slotWord l.memory x i &&& ptePresent = 0) (hpdpt : x ≠ pdpt)
    (hpds : ∀ j, x ≠ directory pds j)
    (hapart : ∀ p t, p.length < 4 →
      bootFollow (some pdpt) (storing l x i entry).memory pml4 p = .table t →
        t ≠ pdpt ∧ ∀ j, t ≠ directory pds j) :
    WindowOk firmware start pml4 (storing l x i entry) pdpt pds := by
  have hkept : ∀ {j : Slot}, slotWord l.memory pml4 j = tableEntry (frameAddress pdpt) →
      slotWord (BootTables.storing l x i entry).memory pml4 j = tableEntry (frameAddress pdpt) := by
    intro j hj
    rw [BootTables.storing, slotWord_writeSlot, if_neg, hj]
    rintro ⟨rfl, rfl⟩
    rw [hj] at hempty
    exact tableEntry_present _ hempty
  refine ⟨⟨fun j => ?_, fun j i => ?_⟩, hkept h.low, hkept h.high, h.pdptUsed, h.pdsUsed, hapart⟩
  · rw [BootTables.storing, slotWord_writeSlot, if_neg fun hc => hpdpt hc.1.symm, h.tables.links]
  · rw [BootTables.storing, slotWord_writeSlot, if_neg fun hc => hpds j hc.1.symm, h.tables.pages]

variable (h : TablesOk firmware start pml4 window l)
  (hx : bootFollow window l.memory pml4 p = .table x)
  (habs : bootFollow window l.memory pml4 (p ++ [i]) = .absent)

include h hx habs

/-- Linking a zero frame that is no table yet adds one table. -/
theorem TablesOk.link (hp : p.length < 3) (hzero : ZeroFrame l.memory y)
    (hused : Used firmware start pml4 l y)
    (hfresh : ∀ q, q.length < 4 → bootFollow window l.memory pml4 q ≠ .table y)
    (hwindow : ∀ pdpt, window = some pdpt → ∃ pds, WindowOk firmware start pml4 l pdpt pds ∧
      y ≠ pdpt ∧ ∀ j, y ≠ directory pds j) :
    TablesOk firmware start pml4 window (storing l x i (tableEntry (frameAddress y))) ∧
      ∀ q, q.length ≤ 4 →
        bootFollow window (storing l x i (tableEntry (frameAddress y))).memory pml4 q =
          if q = p ++ [i] then .table y else bootFollow window l.memory pml4 q := by
  obtain ⟨hentry, hempty⟩ := slot_empty hx habs
  have hp4 : p.length < 4 := by omega
  have hother : ∀ d z j, ¬(z = x ∧ j = i) →
      bootTables window (storing l x i (tableEntry (frameAddress y))).memory d z j =
        bootTables window l.memory d z j := fun d z j hne => by
    rw [storing, bootTables_store, if_neg hne]
  have hnew : bootTables window (storing l x i (tableEntry (frameAddress y))).memory p.length x i =
      .table y := by
    rw [storing, bootTables_store, if_pos ⟨rfl, rfl⟩]
    refine bootDecode_tableEntry hp fun _ hc => ?_
    obtain ⟨pds, _, hne, _⟩ := hwindow y hc
    exact hne rfl
  have hzeroTable : ∀ d j, bootTables window l.memory d y j = .absent := bootTables_of_zero hzero
  have hpaths : ∀ q, q.length ≤ 4 →
      bootFollow window (storing l x i (tableEntry (frameAddress y))).memory pml4 q =
        if q = p ++ [i] then .table y else bootFollow window l.memory pml4 q := fun q hq =>
    follow_link h.separate hp4 hx hentry hnew hother hfresh hzeroTable hq
  -- a table that is reached now was reached before, or is the new one
  have hreached : ∀ q t, q.length < 4 →
      bootFollow window (storing l x i (tableEntry (frameAddress y))).memory pml4 q = .table t →
        t = y ∨ bootFollow window l.memory pml4 q = .table t := fun q t hq ht => by
    rw [hpaths q hq.le] at ht
    split at ht
    · exact Or.inl (End.table.inj ht).symm
    · exact Or.inr ht
  refine ⟨⟨h.calls, Separate.link h.separate hp4 hx hentry hnew hother hfresh hzeroTable,
    fun q t j hq ht => ?_, fun q t hq ht => ?_, fun pdpt hpdpt => ?_⟩, hpaths⟩
  · rw [storing, slotWord_writeSlot]
    split
    · exact Or.inr ⟨y, rfl⟩
    · obtain rfl | ht := hreached q t (by omega) ht
      · rw [hzero.slotWord]
        exact Or.inl (by decide)
      · exact h.entries q t j hq ht
  · obtain rfl | ht := hreached q t hq ht
    · exact hused
    · exact h.used q t hq ht
  · subst hpdpt
    obtain ⟨pds, hok, hapart⟩ := hwindow pdpt rfl
    have hxapart := hok.apart p x hp4 hx
    refine ⟨pds, hok.storing hempty hxapart.1 hxapart.2 fun q t hq ht => ?_⟩
    obtain rfl | ht := hreached q t hq ht
    · exact hapart
    · exact hok.apart q t hq ht

/-- Storing a page in an empty slot of a page table adds this page. -/
theorem TablesOk.leaf (hp : p.length = 3) (pa : Word) (permission : PagingPermission) :
    TablesOk firmware start pml4 window (storing l x i (pageEntry pa permission)) ∧
      ∀ q, q.length ≤ 4 →
        bootFollow window (storing l x i (pageEntry pa permission)).memory pml4 q =
          if q = p ++ [i] then .leaf (pageEntry pa permission) []
          else bootFollow window l.memory pml4 q := by
  obtain ⟨_, hempty⟩ := slot_empty hx habs
  have hp4 : p.length < 4 := by omega
  have hother : ∀ d z j, ¬(z = x ∧ j = i) →
      bootTables window (storing l x i (pageEntry pa permission)).memory d z j =
        bootTables window l.memory d z j := fun d z j hne => by
    rw [storing, bootTables_store, if_neg hne]
  have hnew : bootTables window (storing l x i (pageEntry pa permission)).memory p.length x i =
      .leaf (pageEntry pa permission) := by
    rw [storing, bootTables_store, if_pos ⟨rfl, rfl⟩, hp, bootDecode_pageEntry]
  have hpaths : ∀ q, q.length ≤ 4 →
      bootFollow window (storing l x i (pageEntry pa permission)).memory pml4 q =
        if q = p ++ [i] then .leaf (pageEntry pa permission) []
        else bootFollow window l.memory pml4 q := fun q hq => by
    split
    · rename_i he
      rw [he]
      exact follow_store_self h.separate hp4 hx hnew hother []
    · rename_i hne
      refine follow_update h.separate hp4 hx hother hq fun r hr => hne ?_
      have hlen := congrArg List.length hr
      rw [List.length_append, List.length_cons] at hlen
      have hnil : r = [] := List.length_eq_zero_iff.mp (by omega)
      rw [hr, hnil]
  have hreached : ∀ q t, q.length < 4 →
      bootFollow window (storing l x i (pageEntry pa permission)).memory pml4 q = .table t →
        bootFollow window l.memory pml4 q = .table t := fun q t hq ht => by
    rw [hpaths q hq.le] at ht
    split at ht
    · cases ht
    · exact ht
  refine ⟨⟨h.calls, Separate.store h.separate hp4 hx hnew hother, fun q t j hq ht => ?_,
    fun q t hq ht => h.used q t hq (hreached q t hq ht), fun pdpt hpdpt => ?_⟩, hpaths⟩
  · have hq4 : q.length < 4 := by omega
    have hbefore := hreached q t hq4 ht
    -- the page table is reached by its own path only, which is longer
    have hne : ¬(t = x ∧ j = i) := by
      intro hc
      rw [hc.1] at hbefore
      have hlength := congrArg List.length (h.separate q p x hq4 hp4 hbefore hx)
      omega
    rw [storing, slotWord_writeSlot, if_neg hne]
    exact h.entries q t j hq hbefore
  · subst hpdpt
    obtain ⟨pds, hok⟩ := h.windowOk pdpt rfl
    have hxapart := hok.apart p x hp4 hx
    refine ⟨pds, hok.storing hempty hxapart.1 hxapart.2 fun q t hq ht => ?_⟩
    exact hok.apart q t hq (hreached q t hq ht)

end Store

end Rkhv.BootTables
