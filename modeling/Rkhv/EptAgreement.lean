import Rkhv.EptMapping

/-!
# The builder and the walker agree

After any run of mapping calls the walker returns, for every guest physical
address, exactly what the calls mapped. The walker follows the path of an
address, and every call adds the path of its page, so that the run determines
where every path ends. A page that is mapped already stops the call with
everything unchanged; otherwise only the allocator or a full arena stops it.
-/

namespace Rkhv.EptAgreement

open ByteMemory WordFields HostTypes HostState StateOutcome PageTracker PageTrackerRuns FreePages
  FreePageSearch FreePageContract PageRuns RadixWalk Ept EptWalk MachinePages MachineSteps EptMapping

variable {vm : Word} {s s' : Hv}

/-! ## Walking the tables of a machine -/

/-- The walker follows the path of the address. -/
theorem walk_eq (h : MachineOk s vm) (gpa : Word) :
    vmxEptGetHostPhysicalAddress s.memory (s.vmAt vm) gpa =
      match eptFollow s vm (eptPath gpa) with
      | .leaf entry rest => some (leafAddress gpa entry rest)
      | .table _ | .absent => none := by
  by_cases hept : hasEpt (s.vmAt vm)
  · rw [vmxEptGetHostPhysicalAddress_eq hept (h.tree hept).root.symm, eptFollow_eq hept]
    rfl
  · rw [hasEpt, not_not] at hept
    rw [eptFollow, if_neg (by rw [hasEpt, not_not]; exact hept), vmxEptGetHostPhysicalAddress,
      if_pos hept]

/-- A guest physical page that the tables can hold. -/
def GuestPage (page : Word) : Prop := page.toNat % 4096 = 0 ∧ page.toNat < 2 ^ 48

/-- The address lies in the page. -/
def InPage (page a : Word) : Prop := page.toNat ≤ a.toNat ∧ a.toNat < page.toNat + 4096

/-- Addresses with the same path are those of one page. -/
theorem eptPath_eq_iff {page gpa : Word} (hpage : GuestPage page) (hgpa : gpa.toNat < 2 ^ 48) :
    eptPath gpa = eptPath page ↔ InPage page gpa := by
  obtain ⟨halign, hlimit⟩ := hpage
  have hslot : ∀ k, gpa.extractLsb' k 9 = page.extractLsb' k 9 ↔
      gpa.toNat / 2 ^ k % 512 = page.toNat / 2 ^ k % 512 := fun k => by
    rw [← BitVec.toNat_inj, BitVec.extractLsb'_toNat, BitVec.extractLsb'_toNat,
      Nat.shiftRight_eq_div_pow, Nat.shiftRight_eq_div_pow]
  simp only [eptPath, List.cons.injEq, hslot, and_true, InPage]
  omega

/-- Two pages with one path are equal. -/
theorem GuestPage.eptPath_inj {page page' : Word} (h : GuestPage page) (h' : GuestPage page')
    (he : eptPath page = eptPath page') : page = page' := by
  have hin := (eptPath_eq_iff h' h.2).mp he
  obtain ⟨halign, _⟩ := h
  obtain ⟨halign', _⟩ := h'
  apply BitVec.eq_of_toNat_eq
  rw [InPage] at hin
  omega

/-- The address behind a written page-table entry is the page plus the offset. -/
theorem leafAddress_eptEntry {hpa : Word} (h : PageOk hpa) (gpa : Word) :
    leafAddress gpa (eptEntry hpa) [] = hpa + linearAddressGetOffset gpa := by
  have hsplit : hpa &&& linearAddressGetOffset gpa = 0 := by
    have hlow : hpa &&& linearAddressOffsetMask = 0 := by
      have hflags := or_frameAddress_and (c := 0) (l := linearAddressOffsetMask) (frameOf hpa)
        (by decide)
      simpa [frameAddress_frameOf h] using hflags
    rw [linearAddressGetOffset, BitVec.and_comm gpa, ← BitVec.and_assoc, hlow]
    exact BitVec.zero_and
  rw [leafAddress, and_eptPtePhysicalAddressPage, frameOf_eptEntry, frameAddress_frameOf h,
    ← BitVec.add_eq_or_of_and_eq_zero _ _ hsplit]

/-! ## Runs of mapping calls -/

/-- A sequence of mapping calls that returned, newest first. -/
inductive MapRun (vm : Word) (s : Hv) : List (Word × Word) → Hv → Prop where
  | start : MapRun vm s [] s
  | map {calls : List (Word × Word)} {gpa hpa : Word} {t t' : Hv} (hrun : MapRun vm s calls t)
      (hcall : vmxEptMapPage vm gpa hpa t = .ok () t') : MapRun vm s ((gpa, hpa) :: calls) t'

/-- What the tables are built from: a listed machine without tables whose
reserved pages are zero and different pages below the 52-bit limit, and an
allocator over a map whose usable pages are below this limit. -/
structure TableSupply (s : Hv) (vm : Word) : Prop where
  listed : vm ∈ s.vmManagerVmList
  noEpt : ¬hasEpt (s.vmAt vm)
  entries : ∀ e ∈ trackedOf s vm, EntryOk e
  distinct : (machinePages s vm).Nodup
  zeroed : ∀ f, (frameAddress f, .ept, true) ∈ contents (trackedOf s vm) → ZeroFrame s.memory f
  map : ∀ page, UsablePage (efiMmap s) page → PageOk page
  cursor : CursorOk (efiMmap s) (savedCursor s)

/-- Such a machine is in order. -/
theorem TableSupply.machineOk (h : TableSupply s vm) : MachineOk s vm :=
  ⟨h.listed, h.map, h.cursor, h.entries, h.distinct, h.zeroed, fun hept => absurd hept h.noEpt⟩

/-- Where paths end after a run: at the entries of its calls and nowhere else. -/
structure MapsExactly (s : Hv) (vm : Word) (calls : List (Word × Word)) : Prop where
  ok : MachineOk s vm
  leaf : ∀ call ∈ calls, eptFollow s vm (eptPath call.1) = .leaf (eptEntry call.2) []
  absent : ∀ q, q.length = 4 → (∀ call ∈ calls, q ≠ eptPath call.1) → eptFollow s vm q = .absent

/-- One call adds its page to what is mapped. -/
theorem MapsExactly.map {calls : List (Word × Word)} {gpa hpa : Word} (h : MapsExactly s vm calls)
    (hm : Mapped vm s s' gpa hpa) : MapsExactly s' vm ((gpa, hpa) :: calls) := by
  refine ⟨hm.ok, fun call hcall => ?_, fun q hq hne => ?_⟩
  · rw [hm.follow _ rfl]
    rcases List.mem_cons.mp hcall with rfl | hcall
    · rw [if_pos rfl]
    · have hleaf := h.leaf call hcall
      have hpath : eptPath call.1 ≠ eptPath gpa := fun he => by
        rw [he, hm.absent] at hleaf
        cases hleaf
      rw [if_neg hpath, hleaf]
  · rw [List.forall_mem_cons] at hne
    rw [hm.follow q hq, if_neg hne.1, h.absent q hq hne.2]

/-- A run maps exactly its calls. -/
theorem MapRun.mapsExactly {calls : List (Word × Word)} (hrun : MapRun vm s calls s')
    (h : TableSupply s vm) : MapsExactly s' vm calls := by
  induction hrun with
  | start => exact ⟨h.machineOk, fun _ hcall => absurd hcall List.not_mem_nil,
      fun _ _ _ => if_neg h.noEpt⟩
  | map _ hcall ih => exact ih.map ((vmxEptMapPage_spec ih.ok _ _).of_ok hcall)

/-- After any run of mapping calls the walker yields exactly the mapped pages.
A further call for a mapped page stops and changes nothing; a call for another
page is stopped only by the allocator or by a list entry that is refused. -/
theorem vmxEptMapPage_agrees {calls : List (Word × Word)} (hsupply : TableSupply s vm)
    (hrun : MapRun vm s calls s') (hcalls : ∀ call ∈ calls, GuestPage call.1 ∧ PageOk call.2) :
    (∀ gpa x, gpa.toNat < 2 ^ 48 →
      (vmxEptGetHostPhysicalAddress s'.memory (s'.vmAt vm) gpa = some x ↔
        ∃ call ∈ calls, InPage call.1 gpa ∧ x = call.2 + linearAddressGetOffset gpa)) ∧
    (∀ call ∈ calls, ∀ hpa, vmxEptMapPage vm call.1 hpa s' =
      .error (.panic alreadyMappedPanicStr) s') ∧
    (∀ gpa hpa, GuestPage gpa → (∀ call ∈ calls, call.1 ≠ gpa) →
      ∀ e s'', vmxEptMapPage vm gpa hpa s' = .error e s'' →
        mmGetFreePage s'' = .error e s'' ∨ EntryRefused s'' e) := by
  have hexact := hrun.mapsExactly hsupply
  refine ⟨fun gpa x hgpa => ?_, fun call hcall hpa => ?_, fun gpa hpa hgpa hnew e s'' he => ?_⟩
  · rw [walk_eq hexact.ok]
    by_cases hpath : ∃ call ∈ calls, eptPath gpa = eptPath call.1
    · obtain ⟨call, hcall, he⟩ := hpath
      obtain ⟨hguest, hhost⟩ := hcalls call hcall
      rw [he, hexact.leaf call hcall]
      simp only [leafAddress_eptEntry hhost, Option.some.injEq]
      constructor
      · rintro rfl
        exact ⟨call, hcall, (eptPath_eq_iff hguest hgpa).mp he, rfl⟩
      · rintro ⟨call', hcall', hin, rfl⟩
        -- two calls for one path have the same entry
        obtain ⟨hguest', hhost'⟩ := hcalls call' hcall'
        have he' := (eptPath_eq_iff hguest' hgpa).mpr hin
        have hleaf := hexact.leaf call' hcall'
        rw [← he', he, hexact.leaf call hcall] at hleaf
        have hentry : eptEntry call.2 = eptEntry call'.2 := (End.leaf.inj hleaf).1
        rw [← leafAddress_eptEntry hhost, ← leafAddress_eptEntry hhost', hentry]
    · have hne : ∀ call ∈ calls, eptPath gpa ≠ eptPath call.1 := fun call hcall he =>
        hpath ⟨call, hcall, he⟩
      rw [hexact.absent _ rfl hne]
      constructor
      · exact (nomatch ·)
      · rintro ⟨call, hcall, hin, _⟩
        exact absurd ((eptPath_eq_iff (hcalls call hcall).1 hgpa).mpr hin) (hne call hcall)
  · have hspec := vmxEptMapPage_spec hexact.ok call.1 hpa
    have hleaf := hexact.leaf call hcall
    cases hm : vmxEptMapPage vm call.1 hpa s' with
    | ok u s'' =>
      have habs := (hspec.of_ok hm).absent
      rw [hleaf] at habs
      cases habs
    | error e s'' =>
      rcases hspec.of_error hm with ⟨_, _, _, rfl, rfl⟩ | ⟨habs, _⟩
      · rfl
      · rw [hleaf] at habs
        cases habs
  · have hne : ∀ call ∈ calls, eptPath gpa ≠ eptPath call.1 := fun call hcall hpath =>
      hnew call hcall (GuestPage.eptPath_inj (hcalls call hcall).1 hgpa hpath.symm)
    rcases (vmxEptMapPage_spec hexact.ok gpa hpa).of_error he with ⟨_, _, hleaf, _⟩ | ⟨_, hrefused⟩
    · rw [hexact.absent _ rfl hne] at hleaf
      cases hleaf
    · exact hrefused.2

/-- A machine with four reserved table pages and a used-up part of its arena. -/
def reservedMachine (usedSize : Word) : Hv :=
  { bootState default (fun _ => 0) idleCpu with
    vmManagerArena := some 0x9000
    arenaAt := fun _ => ⟨usedSize⟩
    vmManagerVmList := [1]
    vmAt := fun _ => { (default : Vm) with trackedPages := [⟨0x1000, 4, .ept, true⟩] } }

theorem tableSupply_reservedMachine (usedSize : Word) : TableSupply (reservedMachine usedSize) 1 where
  listed := List.mem_singleton_self 1
  noEpt := by
    change ¬((0 : Word) &&& vmTFlagEptPml4Initialized ≠ 0)
    decide
  entries := by
    intro e he
    have he' : e = ⟨0x1000, 4, .ept, true⟩ := List.mem_singleton.mp he
    rw [he']
    exact ⟨by decide, by decide⟩
  distinct := by
    change (runPages 0x1000 4 ++ []).Nodup
    decide
  zeroed := fun _ _ _ _ => rfl
  map := by
    rintro page ⟨desc, hdesc, husable, _⟩
    have hdefault : desc = default := List.eq_of_mem_replicate hdesc
    rw [hdefault] at husable
    cases husable
  cursor := Or.inl rfl

/-- One page mapped out of the reserved tables. -/
theorem vmxEptMapPage_agrees_one : ∃ s' : Hv, vmxEptGetHostPhysicalAddress s'.memory (s'.vmAt 1) 0x5123 =
    some 0x8123 :=
  have hrun : MapRun 1 (reservedMachine 0) [(0x5000, 0x8000)] _ := .map .start rfl
  ⟨_, ((vmxEptMapPage_agrees (tableSupply_reservedMachine 0) hrun
    (by simp [GuestPage, PageOk])).1 0x5123 0x8123 (by decide)).mpr ⟨(0x5000, 0x8000), List.mem_singleton_self _, by simp [InPage], by decide⟩⟩

/-- The first mapping call stops when the arena cannot hold one more list
entry, although four zero pages for tables are reserved. -/
theorem vmxEptMapPage_stops_fullArena : TableSupply (reservedMachine 4048) 1 ∧ GuestPage 0x5000 ∧
    PageOk 0x8000 ∧ ∃ s', vmxEptMapPage 1 0x5000 0x8000 (reservedMachine 4048) =
      .error (.panic "subarenas not supported right now") s' :=
  ⟨tableSupply_reservedMachine 4048, by simp [GuestPage], by simp [PageOk], _, rfl⟩

end Rkhv.EptAgreement
