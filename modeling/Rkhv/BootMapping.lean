import Rkhv.BootTables

/-!
# Mapping pages in the bootloader

A call of `paging_map_page` goes down three levels and stores one entry. It
adds exactly one page, or fails and changes no walk: on a page that is mapped,
in the window on physical memory, or when the firmware or the pool refuses a
page. After any sequence of calls on a zeroed PML4 the walks are exactly the
pages of the calls that succeeded, with their permissions.
-/

namespace Rkhv.BootMapping

open ByteMemory WordFields HostTypes StateOutcome BootPagePool VmGuestPaging ArchitecturalWalk
  NestedWalk RightsWalk RadixWalk BootPaging BootWindow BootTables

variable {firmware : BootServices} {start : ℕ} {pml4 : Frame} {window : Option Frame}
  {l l' : Loader}

/-! ## One level down -/

/-- A step down to the table of a path: only this path may change, and only
when it led nowhere. -/
structure TableStep (firmware : BootServices) (start : ℕ) (pml4 : Frame) (window : Option Frame)
    (l l' : Loader) (path : List Slot) (y : Frame) : Prop where
  ok : TablesOk firmware start pml4 window l'
  reached : bootFollow window l'.memory pml4 path = .table y
  same : ∀ q, q.length ≤ 4 → q ≠ path →
    bootFollow window l'.memory pml4 q = bootFollow window l.memory pml4 q
  kept : bootFollow window l.memory pml4 path ≠ .absent → l' = l

/-- A call that stopped: every path of the lengths that matter is as before. -/
structure Stopped (firmware : BootServices) (start : ℕ) (pml4 : Frame) (window : Option Frame)
    (l l' : Loader) : Prop where
  ok : TablesOk firmware start pml4 window l'
  same : ∀ q, q.length = 4 →
    bootFollow window l'.memory pml4 q = bootFollow window l.memory pml4 q

/-- An allocated page linked into an empty slot. -/
theorem tableStep_link {l₁ : Loader} {path : List Slot} {i : Slot} {x y : Frame}
    (hfresh : FreshPages firmware start pml4) (h : TablesOk firmware start pml4 window l)
    (hp : path.length < 3) (hx : bootFollow window l.memory pml4 path = .table x)
    (habs : bootFollow window l.memory pml4 (path ++ [i]) = .absent)
    (hnew : NewBlock firmware l l₁ y 1) :
    TableStep firmware start pml4 window l (storing l₁ x i (tableEntry (frameAddress y)))
      (path ++ [i]) y := by
  have hin : InBlock y 1 y := ⟨Nat.le_refl _, Nat.lt_succ_self _⟩
  have hgiven := hnew.given y hin
  have hne : ∀ {f}, Used firmware start pml4 l f → f ≠ y := fun hf =>
    hf.ne_given hfresh h.calls hgiven
  have hcalls : l.allocateCalls < l₁.allocateCalls := by
    rw [hnew.calls]
    exact Nat.lt_succ_self _
  have hused : ∀ f, Used firmware start pml4 l f → SameFrame l.memory l₁.memory f := fun f hf =>
    hnew.others f fun hblock => by
      have hn := hblock.1
      have hn' := hblock.2
      exact hne hf (BitVec.eq_of_toNat_eq (by omega))
  obtain ⟨hok, hsame⟩ := h.of_same hcalls.le hused
  have hlen : (path ++ [i]).length ≤ 4 := by
    rw [List.length_append, List.length_singleton]
    omega
  have hyUsed : Used firmware start pml4 l₁ y := Or.inr ⟨_, h.calls, hcalls, hgiven⟩
  have hunreached : ∀ q, q.length < 4 → bootFollow window l₁.memory pml4 q ≠ .table y :=
    fun q hq ht => by
      rw [hsame q hq.le] at ht
      exact hne (h.used q y hq ht) rfl
  have hwindow : ∀ pdpt, window = some pdpt → ∃ pds, WindowOk firmware start pml4 l₁ pdpt pds ∧
      y ≠ pdpt ∧ ∀ j, y ≠ directory pds j := by
    intro pdpt hpdpt
    subst hpdpt
    obtain ⟨pds, hwindow⟩ := h.windowOk pdpt rfl
    exact ⟨pds, hwindow.of_same hcalls.le hused hsame, (hne hwindow.pdptUsed).symm,
      fun j => (hne (hwindow.pdsUsed j)).symm⟩
  obtain ⟨hlinked, hpaths⟩ := hok.link ((hsame path (by omega)).trans hx)
    ((hsame _ hlen).trans habs) hp (hnew.zero y hin) hyUsed hunreached hwindow
  refine ⟨hlinked, ?_, fun q hq hqne => ?_, fun hkept => absurd habs hkept⟩
  · rw [hpaths _ hlen, if_pos rfl]
  · rw [hpaths q hq, if_neg hqne, hsame q hq]

/-- The bits that `paging_map_page` tests for a large page. -/
theorem tableEntry_pageSize {bit : Word} (hbit : bit = 0 ∨ bit = pdePageSize) (pa : Word) :
    tableEntry pa &&& bit = 0 := by
  obtain rfl | rfl := hbit
  · exact BitVec.and_zero
  · exact and_pageSize_eq_zero_iff.mpr (tableEntry_bits pa).2.2.1

/-- One level down, outside the window: the table that is there, or a new zero
table, or no page for it. -/
theorem pagingNextTable_spec {bit : Word} {path : List Slot} {i : Slot} {x : Frame}
    (hfresh : FreshPages firmware start pml4) (hbit : bit = 0 ∨ bit = pdePageSize)
    (h : TablesOk firmware start pml4 window l) (hp : path.length < 3)
    (hx : bootFollow window l.memory pml4 path = .table x)
    (hwindow : ∀ g, slotWord l.memory x i = tableEntry (frameAddress g) → path.length = 0 →
      window ≠ some g) :
    Ensures (pagingNextTable firmware bit (frameAddress x) (i.setWidth 64)) l
      (fun next l' => ∃ y, next = frameAddress y ∧
        TableStep firmware start pml4 window l l' (path ++ [i]) y)
      (fun _ l' => bootFollow window l.memory pml4 (path ++ [i]) = .absent ∧
        Stopped firmware start pml4 window l l') := by
  have hnext := bootFollow_snoc (i := i) hx
  simp only [pagingNextTable, ensures_bind, ensures_readEntry, frameAddress_add_slot, ensures_ite,
    ensures_throw, ensures_pure, ensures_writeEntry, ← slotWord.eq_def]
  obtain habsent | ⟨g, hg⟩ := h.entries path x i hp hx
  · refine ⟨fun hpresent => absurd habsent hpresent, fun _ => ?_⟩
    have hempty : bootTables window l.memory path.length x i = .absent := by
      rw [bootTables, bootDecode, if_pos habsent]
    rw [hempty] at hnext
    refine (pagingAllocatePage_spec hfresh h.calls (by decide) (by decide)).mono
      (fun _ l₁ hpage => ?_) fun _ l₁ he => ?_
    · obtain ⟨y, rfl, hnew, _⟩ := hpage
      exact ⟨y, rfl, tableStep_link hfresh h hp hx hnext hnew⟩
    · obtain ⟨hmemory, hcalls, _⟩ := he
      have hle : l.allocateCalls ≤ l₁.allocateCalls := by
        rw [hcalls]
        exact Nat.le_succ _
      obtain ⟨hok, hsame⟩ := h.of_same hle fun f _ => by
        rw [hmemory]
        exact SameFrame.refl _ f
      exact ⟨hnext, hok, fun q hq => hsame q (Nat.le_of_eq hq)⟩
  · have htable : bootTables window l.memory path.length x i = .table g := by
      rw [bootTables, hg]
      exact bootDecode_tableEntry hp (hwindow g hg)
    rw [htable] at hnext
    rw [hg, tableEntry_pageSize hbit, tableEntry_and]
    refine ⟨fun _ => ⟨fun hc => absurd rfl hc, fun _ => ?_⟩, fun hc => absurd (not_not.mp hc)
      (tableEntry_present _)⟩
    exact ⟨g, rfl, h, hnext, fun _ _ _ => rfl, fun _ => rfl⟩

/-! ## All levels -/

/-- A walk down along a path: only the paths of the tables on the way may
change, and only when they led nowhere. -/
structure Descent (firmware : BootServices) (start : ℕ) (pml4 : Frame) (window : Option Frame)
    (l l' : Loader) (path : List Slot) (y : Frame) : Prop where
  ok : TablesOk firmware start pml4 window l'
  reached : bootFollow window l'.memory pml4 path = .table y
  same : ∀ q, q.length ≤ 4 → ¬q <+: path →
    bootFollow window l'.memory pml4 q = bootFollow window l.memory pml4 q
  kept : bootFollow window l.memory pml4 path ≠ .absent → l' = l

namespace Descent

variable {l₁ l₂ : Loader} {path : List Slot} {i : Slot} {x y : Frame}

theorem refl (h : TablesOk firmware start pml4 window l) :
    Descent firmware start pml4 window l l [] pml4 :=
  ⟨h, follow_nil _ _ _, fun _ _ _ => rfl, fun _ => rfl⟩

/-- What lies below the end of a walk is as before. -/
theorem below (h : Descent firmware start pml4 window l l₁ path x) (hp : path.length < 4) :
    bootFollow window l₁.memory pml4 (path ++ [i]) = bootFollow window l.memory pml4 (path ++ [i]) := by
  have hlen : (path ++ [i]).length = path.length + 1 := List.length_append
  exact h.same _ (by omega) (not_prefix_of_length (by omega))

/-- A walk goes one level further. -/
theorem snoc (h : Descent firmware start pml4 window l l₁ path x)
    (h' : TableStep firmware start pml4 window l₁ l₂ (path ++ [i]) y) (hp : path.length < 4) :
    Descent firmware start pml4 window l l₂ (path ++ [i]) y := by
  refine ⟨h'.ok, h'.reached, fun q hq hne => ?_, fun hkept => ?_⟩
  · have hne₁ : ¬q <+: path := fun hpre => hne (hpre.trans (List.prefix_append path [i]))
    have hne₂ : q ≠ path ++ [i] := fun he => hne (he ▸ List.prefix_rfl)
    exact (h'.same q hq hne₂).trans (h.same q hq hne₁)
  · have hfirst : l₁ = l := h.kept fun habs => hkept (follow_append_absent habs [i])
    rw [← h.below hp] at hkept
    exact (h'.kept hkept).trans hfirst

/-- One level further, or an empty slot for which there is no page. -/
theorem next {bit : Word} (h : Descent firmware start pml4 window l l₁ path x)
    (hfresh : FreshPages firmware start pml4) (hbit : bit = 0 ∨ bit = pdePageSize)
    (hp : path.length < 3) (hwindow : ∀ g, slotWord l₁.memory x i = tableEntry (frameAddress g) →
      path.length = 0 → window ≠ some g) :
    Ensures (pagingNextTable firmware bit (frameAddress x) (i.setWidth 64)) l₁
      (fun next l₂ => ∃ y, next = frameAddress y ∧
        Descent firmware start pml4 window l l₂ (path ++ [i]) y)
      (fun _ l₂ => bootFollow window l.memory pml4 (path ++ [i]) = .absent ∧
        Stopped firmware start pml4 window l l₂) := by
  have hp4 : path.length < 4 := by omega
  refine (pagingNextTable_spec hfresh hbit h.ok hp h.reached hwindow).mono
    (fun _ l₂ hnext => ?_) fun _ l₂ he => ?_
  · obtain ⟨y, rfl, hstep⟩ := hnext
    exact ⟨y, rfl, h.snoc hstep hp4⟩
  · obtain ⟨habs, hok, hsame⟩ := he
    rw [h.below hp4] at habs
    refine ⟨habs, hok, fun q hq => ?_⟩
    rw [hsame q hq, h.same q (Nat.le_of_eq hq) (not_prefix_of_length (by omega))]

end Descent

/-! ## Mapping a page -/

/-- One page was added. -/
structure PageAdded (firmware : BootServices) (start : ℕ) (pml4 : Frame) (window : Option Frame)
    (l l' : Loader) (va entry : Word) : Prop where
  ok : TablesOk firmware start pml4 window l'
  absent : bootFollow window l.memory pml4 (bootPath va) = .absent
  follow : ∀ q, q.length = 4 → bootFollow window l'.memory pml4 q =
    if q = bootPath va then .leaf entry [] else bootFollow window l.memory pml4 q

/-- What `paging_map_page` does: one page is added, or no walk changes; on a
page that is mapped the status is `EFI_OUT_OF_RESOURCES`. -/
def PageMapped (firmware : BootServices) (start : ℕ) (pml4 : Frame) (window : Option Frame)
    (l : Loader) (pa va : Word) (permission : PagingPermission) : Prop :=
  Ensures (pagingMapPage firmware (frameAddress pml4) pa va permission) l
    (fun _ l' => PageAdded firmware start pml4 window l l' va (pageEntry pa permission))
    (fun e l' => Stopped firmware start pml4 window l l' ∧
      ((∃ entry, bootFollow window l.memory pml4 (bootPath va) = .leaf entry []) →
        e = .outOfResources))

theorem linearAddressGetPml4_slot (va : Word) :
    linearAddressGetPml4 va = (slotOf 4 va).setWidth 64 := EptWalk.linearAddressGetPml4_eq va

theorem linearAddressGetDirectoryPtr_slot (va : Word) :
    linearAddressGetDirectoryPtr va = (slotOf 3 va).setWidth 64 :=
  EptWalk.linearAddressGetDirectoryPtr_eq va

theorem linearAddressGetDirectory_slot (va : Word) :
    linearAddressGetDirectory va = (slotOf 2 va).setWidth 64 := EptWalk.linearAddressGetDirectory_eq va

theorem linearAddressGetTable_slot (va : Word) :
    linearAddressGetTable va = (slotOf 1 va).setWidth 64 := EptWalk.linearAddressGetTable_eq va

/-- The last level: an empty slot receives the page, a present one stops the call. -/
theorem mapLast_spec {l₁ : Loader} {p : List Slot} {i : Slot} {x : Frame} {va : Word}
    (h : Descent firmware start pml4 window l l₁ p x) (hp : p.length = 3)
    (hva : bootPath va = p ++ [i]) (pa : Word) (permission : PagingPermission) :
    (slotWord l₁.memory x i &&& ptePresent ≠ 0 → Stopped firmware start pml4 window l l₁) ∧
    (slotWord l₁.memory x i &&& ptePresent = 0 → PageAdded firmware start pml4 window l
      (storing l₁ x i (pageEntry pa permission)) va (pageEntry pa permission)) := by
  have hp4 : p.length < 4 := by omega
  have hbelow := h.below (i := i) hp4
  have hsame : ∀ q, q.length = 4 →
      bootFollow window l₁.memory pml4 q = bootFollow window l.memory pml4 q := fun q hq =>
    h.same q (Nat.le_of_eq hq) (not_prefix_of_length (by omega))
  refine ⟨fun _ => ⟨h.ok, hsame⟩, fun habsent => ?_⟩
  have hempty : bootFollow window l₁.memory pml4 (p ++ [i]) = .absent := by
    rw [bootFollow_snoc h.reached, bootTables, bootDecode, if_pos habsent]
  obtain ⟨hok, hpaths⟩ := h.ok.leaf h.reached hempty hp pa permission
  refine ⟨hok, ?_, fun q hq => ?_⟩
  · rw [hva, ← hbelow, hempty]
  · rw [hpaths q (Nat.le_of_eq hq), hva, hsame q hq]

/-- Outside the window. -/
theorem pagingMapPage_outside (hfresh : FreshPages firmware start pml4)
    (h : TablesOk firmware start pml4 window l) (pa va : Word) (permission : PagingPermission)
    (hwindow : ∀ g, slotWord l.memory pml4 (slotOf 4 va) = tableEntry (frameAddress g) →
      window ≠ some g) : PageMapped firmware start pml4 window l pa va permission := by
  simp only [PageMapped, pagingMapPage, ensures_bind, linearAddressGetPml4_slot,
    linearAddressGetDirectoryPtr_slot, linearAddressGetDirectory_slot, linearAddressGetTable_slot]
  -- a path that ends at an empty slot above is no mapped page
  have hstop : ∀ (p q : List Slot) (e : EfiStatus) (l' : Loader), bootPath va = p ++ q →
      bootFollow window l.memory pml4 p = .absent ∧ Stopped firmware start pml4 window l l' →
      Stopped firmware start pml4 window l l' ∧
        ((∃ entry, bootFollow window l.memory pml4 (bootPath va) = .leaf entry []) →
          e = .outOfResources) := by
    intro p q e l' hpath hstopped
    refine ⟨hstopped.2, fun hleaf => ?_⟩
    obtain ⟨entry, hentry⟩ := hleaf
    have habs : bootFollow window l.memory pml4 (bootPath va) = .absent := by
      rw [hpath]
      exact follow_append_absent hstopped.1 q
    rw [habs] at hentry
    cases hentry
  refine ((Descent.refl h).next hfresh (Or.inl rfl) (by decide) fun g hg _ => hwindow g hg).mono
    (fun _ l₁ hnext => ?_) fun e l' he => hstop _ [slotOf 3 va, slotOf 2 va, slotOf 1 va] e l' rfl he
  obtain ⟨pdpt, rfl, hpdpt⟩ := hnext
  refine (hpdpt.next hfresh (Or.inr rfl) (by simp) fun _ _ hc => by simp at hc).mono
    (fun _ l₂ hnext => ?_) fun e l' he => hstop _ [slotOf 2 va, slotOf 1 va] e l' rfl he
  obtain ⟨pd, rfl, hpd⟩ := hnext
  refine (hpd.next hfresh (Or.inr rfl) (by simp) fun _ _ hc => by simp at hc).mono
    (fun _ l₃ hnext => ?_) fun e l' he => hstop _ [slotOf 1 va] e l' rfl he
  obtain ⟨pt, rfl, hpt⟩ := hnext
  have hlast : bootPath va = [slotOf 4 va, slotOf 3 va, slotOf 2 va] ++ [slotOf 1 va] := rfl
  obtain ⟨hpresent, habsent⟩ := mapLast_spec hpt rfl hlast pa permission
  simp only [ensures_readEntry, frameAddress_add_slot, ensures_ite, ensures_throw,
    ensures_writeEntry, ← slotWord.eq_def]
  exact ⟨fun hc => ⟨hpresent hc, fun _ => trivial⟩, fun hc => habsent (not_not.mp hc)⟩

/-- In the window every call is refused. -/
theorem pagingMapPage_window {pdpt : Frame} (h : TablesOk firmware start pml4 (some pdpt) l)
    (pa va : Word) (permission : PagingPermission)
    (hslot : slotWord l.memory pml4 (slotOf 4 va) = tableEntry (frameAddress pdpt)) :
    pagingMapPage firmware (frameAddress pml4) pa va permission l = .error .unsupported l := by
  obtain ⟨pds, hwindow⟩ := h.windowOk pdpt rfl
  have hlink := hwindow.tables.links (slotOf 3 va)
  have hpage := hwindow.tables.pages (slotOf 3 va) (slotOf 2 va)
  obtain ⟨hpresent, _, hlarge, _⟩ := identityPde_bits (slotOf 3 va).toNat (slotOf 2 va).toNat
  have hspec : Ensures (pagingMapPage firmware (frameAddress pml4) pa va permission) l
      (fun _ _ => False) (fun e l' => e = .unsupported ∧ l' = l) := by
    simp only [pagingMapPage, pagingNextTable, ensures_bind, linearAddressGetPml4_slot,
      linearAddressGetDirectoryPtr_slot, linearAddressGetDirectory_slot, ensures_readEntry,
      frameAddress_add_slot, ensures_ite, ensures_throw, ensures_pure, ← slotWord.eq_def, hslot,
      tableEntry_and, hlink, hpage]
    refine ⟨fun _ => ⟨fun hc => absurd BitVec.and_zero hc, fun _ => ?_⟩,
      fun hc => absurd (not_not.mp hc) (tableEntry_present _)⟩
    refine ⟨fun _ => ⟨fun hc => absurd (tableEntry_pageSize (Or.inr rfl) _) hc, fun _ => ?_⟩,
      fun hc => absurd (not_not.mp hc) (tableEntry_present _)⟩
    exact ⟨fun _ => ⟨fun _ => ⟨trivial, trivial⟩, fun hc => absurd (not_not.mp hc) (large hlarge)⟩,
      fun hc => absurd (not_not.mp hc) (present hpresent)⟩
  cases hcall : pagingMapPage firmware (frameAddress pml4) pa va permission l with
  | ok _ l' => exact (hspec.of_ok hcall).elim
  | error e l' =>
    obtain ⟨rfl, rfl⟩ := hspec.of_error hcall
    rfl

/-- `paging_map_page` in all cases. -/
theorem pagingMapPage_spec (hfresh : FreshPages firmware start pml4)
    (h : TablesOk firmware start pml4 window l) (pa va : Word) (permission : PagingPermission) :
    PageMapped firmware start pml4 window l pa va permission := by
  by_cases hwindow : ∃ g, slotWord l.memory pml4 (slotOf 4 va) = tableEntry (frameAddress g) ∧
      window = some g
  · obtain ⟨pdpt, hslot, rfl⟩ := hwindow
    have hcall : pagingMapPage firmware (frameAddress pml4) pa va permission l =
        .error .unsupported l := pagingMapPage_window h pa va permission hslot
    have hroot : bootFollow (some pdpt) l.memory pml4 (bootPath va) =
        .leaf (tableEntry (frameAddress pdpt)) [slotOf 3 va, slotOf 2 va, slotOf 1 va] := by
      refine follow_leaf ?_ _
      rw [bootTables, hslot, bootDecode_window]
    refine Ensures.error hcall ⟨⟨h, fun _ _ => rfl⟩, fun hleaf => ?_⟩
    obtain ⟨entry, hentry⟩ := hleaf
    rw [hroot] at hentry
    cases hentry
  · exact pagingMapPage_outside hfresh h pa va permission fun g hg hc => hwindow ⟨g, hg, hc⟩

/-- A call that fails changes no walk. -/
theorem Stopped.bootWalk_eq (h : TablesOk firmware start pml4 window l)
    (hstopped : Stopped firmware start pml4 window l l') (va : Word) :
    bootWalk l'.memory pml4 va = bootWalk l.memory pml4 va := by
  rw [hstopped.ok.bootWalk_eq, h.bootWalk_eq, hstopped.same _ rfl]

/-! ## Sequences of calls -/

/-- A zeroed PML4 has tables that are in order and lead nowhere. -/
theorem tablesOk_zero (hzero : ZeroFrame l.memory pml4) :
    TablesOk firmware l.allocateCalls pml4 none l ∧
      ∀ q, q ≠ [] → bootFollow none l.memory pml4 q = .absent := by
  have hempty : ∀ d i, bootTables none l.memory d pml4 i = .absent := bootTables_of_zero hzero
  have hroot : ∀ p t, bootFollow none l.memory pml4 p = .table t → t = pml4 := fun p t ht => by
    rw [bootFollow, follow_of_empty hempty] at ht
    split at ht
    · exact (End.table.inj ht).symm
    · cases ht
  refine ⟨⟨Nat.le_refl _, separate_of_empty hempty 4, fun p t i _ ht => Or.inl ?_,
    fun p t _ ht => Or.inl (hroot p t ht), fun _ hc => by cases hc⟩, fun q hq => ?_⟩
  · rw [hroot p t ht, hzero.slotWord]
    decide
  · rw [bootFollow, follow_of_empty hempty, if_neg hq]

/-- The arguments of a call: a page below 2^52, a canonical page and a permission. -/
structure MapCall where
  physicalAddress : Word
  virtualAddress : Word
  permission : PagingPermission
  physicalPage : physicalAddress.toNat % 4096 = 0 ∧ physicalAddress.toNat < 2 ^ 52
  virtualPage : virtualAddress.toNat % 4096 = 0 ∧ Canonical virtualAddress

/-- `paging_map_page` with the arguments of a call. -/
def MapCall.run (c : MapCall) (firmware : BootServices) (pml4 : Frame) : LoaderM Unit :=
  pagingMapPage firmware (frameAddress pml4) c.physicalAddress c.virtualAddress c.permission

/-- The address lies in the page that the call maps. -/
def MapCall.Maps (c : MapCall) (va : Word) : Prop :=
  c.virtualAddress.toNat ≤ va.toNat ∧ va.toNat < c.virtualAddress.toNat + 4096

instance (c : MapCall) (va : Word) : Decidable (c.Maps va) := inferInstanceAs (Decidable (_ ∧ _))

/-- Where the call sends an address of its page, with its permission. -/
def MapCall.translation (c : MapCall) (va : Word) : Translation :=
  ⟨c.physicalAddress.toNat + (va.toNat - c.virtualAddress.toNat), decide (c.permission = .rw),
    decide (c.permission = .rx)⟩

/-- A sequence of calls, with those that returned `EFI_SUCCESS`, newest first. -/
inductive MapRun (firmware : BootServices) (pml4 : Frame) (l : Loader) :
    List MapCall → Loader → Prop where
  | start : MapRun firmware pml4 l [] l
  | success {calls : List MapCall} {c : MapCall} {t t' : Loader} (hrun : MapRun firmware pml4 l calls t)
      (hcall : c.run firmware pml4 t = .ok () t') : MapRun firmware pml4 l (c :: calls) t'
  | failure {calls : List MapCall} {c : MapCall} {e : EfiStatus} {t t' : Loader}
      (hrun : MapRun firmware pml4 l calls t) (hcall : c.run firmware pml4 t = .error e t') :
      MapRun firmware pml4 l calls t'

/-- Addresses have the path of a page when they lie in it. -/
theorem bootPath_eq_iff (c : MapCall) {va : Word} (hva : Canonical va) :
    bootPath va = bootPath c.virtualAddress ↔ c.Maps va := by
  obtain ⟨halign, hcanonical⟩ := c.virtualPage
  have hslot : ∀ level, slotOf level va = slotOf level c.virtualAddress ↔
      va.toNat / 2 ^ levelShift level % 512 = c.virtualAddress.toNat / 2 ^ levelShift level % 512 :=
    fun level => by
      rw [slotOf, slotOf, ← BitVec.toNat_inj, BitVec.extractLsb'_toNat, BitVec.extractLsb'_toNat,
        Nat.shiftRight_eq_div_pow, Nat.shiftRight_eq_div_pow]
  have hfour : levelShift 4 = 39 := rfl
  have hthree : levelShift 3 = 30 := rfl
  have htwo : levelShift 2 = 21 := rfl
  have hone : levelShift 1 = 12 := rfl
  simp only [bootPath, List.cons.injEq, hslot, and_true, hfour, hthree, htwo, hone, MapCall.Maps]
  have hlt := va.isLt
  have hlt' := c.virtualAddress.isLt
  rw [Canonical] at hva hcanonical
  omega

/-- The entry of a call leads where the call says. -/
theorem leafTranslation_call (c : MapCall) {va : Word} (hva : c.Maps va) :
    leafTranslation (pageEntry c.physicalAddress c.permission) va = c.translation va := by
  have hframe : frameAddress (frameOf c.physicalAddress) = c.physicalAddress := by
    obtain ⟨halign, hlimit⟩ := c.physicalPage
    exact MachinePages.frameAddress_frameOf ⟨halign, by omega⟩
  have haddress := entryAddress_pageEntry (frameOf c.physicalAddress) c.permission
  rw [hframe] at haddress
  obtain ⟨_, hwrite, hexecute⟩ := pageEntry_bits c.physicalAddress c.permission
  have hoffset : va.toNat % 2 ^ 12 = va.toNat - c.virtualAddress.toNat := by
    have halign := c.virtualPage.1
    obtain ⟨hfrom, hto⟩ := hva
    omega
  rw [leafTranslation, haddress, hwrite, hexecute, Bool.not_not, hoffset, MapCall.translation]

/-- Where paths end after a run: at the pages of its successful calls and nowhere else. -/
structure MapsExactly (firmware : BootServices) (start : ℕ) (pml4 : Frame) (calls : List MapCall)
    (l : Loader) : Prop where
  ok : TablesOk firmware start pml4 none l
  leaf : ∀ c ∈ calls, bootFollow none l.memory pml4 (bootPath c.virtualAddress) =
    .leaf (pageEntry c.physicalAddress c.permission) []
  absent : ∀ q, q.length = 4 → (∀ c ∈ calls, q ≠ bootPath c.virtualAddress) →
    bootFollow none l.memory pml4 q = .absent

/-- A successful call adds its page. -/
theorem MapsExactly.success {calls : List MapCall} {c : MapCall}
    (h : MapsExactly firmware start pml4 calls l)
    (hadded : PageAdded firmware start pml4 none l l' c.virtualAddress
      (pageEntry c.physicalAddress c.permission)) :
    MapsExactly firmware start pml4 (c :: calls) l' := by
  refine ⟨hadded.ok, fun c' hc' => ?_, fun q hq hne => ?_⟩
  · rw [hadded.follow _ rfl]
    obtain rfl | hc' := List.mem_cons.mp hc'
    · rw [if_pos rfl]
    · have hleaf := h.leaf c' hc'
      have hpath : bootPath c'.virtualAddress ≠ bootPath c.virtualAddress := fun he => by
        rw [he, hadded.absent] at hleaf
        cases hleaf
      rw [if_neg hpath, hleaf]
  · rw [List.forall_mem_cons] at hne
    rw [hadded.follow q hq, if_neg hne.1, h.absent q hq hne.2]

/-- A failed call changes nothing that counts. -/
theorem MapsExactly.failure {calls : List MapCall} (h : MapsExactly firmware start pml4 calls l)
    (hstopped : Stopped firmware start pml4 none l l') :
    MapsExactly firmware start pml4 calls l' := by
  refine ⟨hstopped.ok, fun c hc => ?_, fun q hq hne => ?_⟩
  · rw [hstopped.same _ rfl, h.leaf c hc]
  · rw [hstopped.same q hq, h.absent q hq hne]

/-- A run maps exactly its successful calls. -/
theorem MapRun.mapsExactly {calls : List MapCall} (hrun : MapRun firmware pml4 l calls l')
    (hfresh : FreshPages firmware l.allocateCalls pml4) (hzero : ZeroFrame l.memory pml4) :
    MapsExactly firmware l.allocateCalls pml4 calls l' := by
  induction hrun with
  | start =>
    obtain ⟨hok, habsent⟩ := @tablesOk_zero firmware _ _ hzero
    refine ⟨hok, fun _ hc => absurd hc List.not_mem_nil, fun q hq _ => habsent q fun he => ?_⟩
    rw [he] at hq
    cases hq
  | success _ hcall ih => exact ih.success ((pagingMapPage_spec hfresh ih.ok _ _ _).of_ok hcall)
  | failure _ hcall ih => exact ih.failure ((pagingMapPage_spec hfresh ih.ok _ _ _).of_error hcall).1

/-- After any run on a zeroed PML4 the walks of canonical addresses succeed
exactly for the pages of the successful calls, with their physical pages and
permissions; a further call for a mapped page returns `EFI_OUT_OF_RESOURCES`,
and a further call that fails changes no walk. -/
theorem pagingMapPage_exact {calls : List MapCall} (hfresh : FreshPages firmware l.allocateCalls pml4)
    (hzero : ZeroFrame l.memory pml4) (hrun : MapRun firmware pml4 l calls l') :
    (∀ va t, Canonical va → (bootWalk l'.memory pml4 va = .ok t ↔
      ∃ c ∈ calls, c.Maps va ∧ t = c.translation va)) ∧
    (∀ c c' : MapCall, c ∈ calls → c'.virtualAddress = c.virtualAddress →
      ∃ l'', c'.run firmware pml4 l' = .error .outOfResources l'') ∧
    (∀ (c : MapCall) e l'', c.run firmware pml4 l' = .error e l'' → ∀ va,
      bootWalk l''.memory pml4 va = bootWalk l'.memory pml4 va) := by
  have hexact := hrun.mapsExactly hfresh hzero
  refine ⟨fun va t hva => ?_, fun c c' hc hsame => ?_, fun c e l'' hcall va => ?_⟩
  · rw [hexact.ok.bootWalk_eq]
    by_cases hpath : ∃ c ∈ calls, bootPath va = bootPath c.virtualAddress
    · obtain ⟨c, hc, he⟩ := hpath
      have hmaps := (bootPath_eq_iff c hva).mp he
      rw [he, hexact.leaf c hc, endTranslation, leafTranslation_call c hmaps, Except.ok.injEq]
      constructor
      · intro ht
        exact ⟨c, hc, hmaps, ht.symm⟩
      · rintro ⟨c', hc', hmaps', rfl⟩
        -- two calls for one path have the same entry
        have hleaf := hexact.leaf c' hc'
        rw [← (bootPath_eq_iff c' hva).mpr hmaps', he, hexact.leaf c hc] at hleaf
        rw [← leafTranslation_call c hmaps, ← leafTranslation_call c' hmaps', (End.leaf.inj hleaf).1]
    · have hne : ∀ c ∈ calls, bootPath va ≠ bootPath c.virtualAddress := fun c hc he =>
        hpath ⟨c, hc, he⟩
      rw [hexact.absent _ rfl hne, endTranslation]
      constructor
      · intro ht
        cases ht
      · rintro ⟨c, hc, hmaps, _⟩
        exact absurd ((bootPath_eq_iff c hva).mpr hmaps) (hne c hc)
  · have hspec := pagingMapPage_spec hfresh hexact.ok c'.physicalAddress c'.virtualAddress c'.permission
    have hleaf := hexact.leaf c hc
    rw [← hsame] at hleaf
    cases hcall : c'.run firmware pml4 l' with
    | ok _ l'' =>
      have habsent := (hspec.of_ok hcall).absent
      rw [hleaf] at habsent
      cases habsent
    | error e l'' =>
      obtain rfl := (hspec.of_error hcall).2 ⟨_, hleaf⟩
      exact ⟨l'', rfl⟩
  · have hspec := pagingMapPage_spec hfresh hexact.ok c.physicalAddress c.virtualAddress c.permission
    exact (hspec.of_error hcall).1.bootWalk_eq hexact.ok va

/-- Firmware that gives one page for each of the first three calls. -/
def threePages : BootServices where
  allocatePages k n :=
    if k < 3 ∧ n = 1 then .ok (frameAddress (BitVec.ofNat 40 (k + 2))) else .error .outOfResources

theorem givenBy_threePages {k : ℕ} {f : Frame} (h : GivenBy threePages k f) :
    k < 3 ∧ f.toNat = k + 2 := by
  obtain ⟨n, address, hanswer, hfrom, hto⟩ := h
  rw [threePages] at hanswer
  dsimp only at hanswer
  split at hanswer
  · rename_i hk
    obtain ⟨hk, rfl⟩ := hk
    have haddress := Except.ok.inj hanswer
    have hone : (1 : Word).toNat = 1 := rfl
    rw [← haddress, toNat_frameAddress, toNat_frameAddress, BitVec.toNat_ofNat] at hfrom hto
    rw [hone] at hto
    exact ⟨hk, by omega⟩
  · cases hanswer

theorem freshPages_threePages : FreshPages threePages 0 1 where
  page k n address _ h := by
    rw [threePages] at h
    dsimp only at h
    split at h
    · rename_i hk
      have haddress := Except.ok.inj h
      have hone : (1 : Word).toNat = 1 := rfl
      rw [← haddress, toNat_frameAddress, BitVec.toNat_ofNat, hk.2, hone]
      omega
    · cases h
  disjoint j k f _ _ hj hk := by
    have hfirst := (givenBy_threePages hj).2
    have hsecond := (givenBy_threePages hk).2
    omega
  pml4 k _ h := by
    have hframe := (givenBy_threePages h).2
    have hone : (1 : Frame).toNat = 1 := rfl
    omega

/-- A loader with room for four regions. -/
def freshLoader : Loader := ⟨fun _ => 0, ⟨4, [], Nat.zero_le 4⟩, 0⟩

/-- The first page of the hypervisor's code. -/
def codePage : MapCall := ⟨0x300000, 0xffffff0000000000, .rx, by decide, by decide⟩

/-- This page alone. -/
theorem pagingMapPage_exact_codePage : ∃ l', MapRun threePages 1 freshLoader [codePage] l' ∧
    bootWalk l'.memory 1 0xffffff0000000123 = .ok ⟨0x300123, false, true⟩ := by
  have hreturned : (match codePage.run threePages 1 freshLoader with
      | .ok _ _ => true
      | .error _ _ => false) = true := by
    decide +kernel
  cases hcall : codePage.run threePages 1 freshLoader with
  | ok _ l' =>
    have hrun : MapRun threePages 1 freshLoader [codePage] l' := .success .start hcall
    refine ⟨l', hrun, ?_⟩
    exact ((pagingMapPage_exact freshPages_threePages (fun _ _ => rfl) hrun).1 _ _ (by decide)).mpr
      ⟨codePage, List.mem_singleton_self _, by decide, by decide⟩
  | error e l' =>
    rw [hcall] at hreturned
    cases hreturned

end Rkhv.BootMapping
