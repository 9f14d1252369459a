import Rkhv.ArchitecturalWalk
import Rkhv.GuestIsolation

/-!
# Setting up a guest memory

Before its first launch a machine's guest memory is filled through pointers to
its host pages. As long as only bytes of these pages are written, the extended
page tables stay as they are, so that every later translation gives the same
page as before.
-/

namespace Rkhv.GuestSetup

open ByteMemory WordFields HostTypes HostState StateOutcome PageTracker PageTrackerRuns RadixWalk Ept
  EptWalk EptAgreement MachinePages GuestMemory GuestIsolation ArchitecturalWalk

variable {s : Hv} {vm : Word} {n : ℕ} {host : ℕ → Frame}

/-! ## Bytes of guest pages -/

/-- Only bytes of the host pages of some guest pages change. -/
def WritesWithin (host : ℕ → Frame) (pages : Set ℕ) (m m' : Memory) : Prop :=
  ∀ a, (∀ j ∈ pages, ¬InFrame (host j) a) → m' a = m a

namespace WritesWithin

variable {pages pages' : Set ℕ} {m m' m'' : Memory} {j : ℕ}

theorem refl (host : ℕ → Frame) (pages : Set ℕ) (m : Memory) : WritesWithin host pages m m :=
  fun _ _ => rfl

theorem trans (h : WritesWithin host pages m m') (h' : WritesWithin host pages m' m'') :
    WritesWithin host pages m m'' := fun a ha => (h' a ha).trans (h a ha)

theorem mono (h : WritesWithin host pages m m') (hsub : pages ⊆ pages') :
    WritesWithin host pages' m m' := fun a ha => h a fun j hj => ha j (hsub hj)

/-- Frames of other pages stay the same. -/
theorem sameFrame (h : WritesWithin host pages m m') {f : Frame} (hf : ∀ j ∈ pages, host j ≠ f) :
    SameFrame m m' f := fun a ha => h a fun j hj hin => hf j hj (InFrame.eq hin ha)

/-- A changed byte lies in one of the pages. -/
theorem exists_of_ne (h : WritesWithin host pages m m') {a : Word} (hne : m' a ≠ m a) :
    ∃ j ∈ pages, InFrame (host j) a := by
  by_contra hnone
  exact hne (h a fun j hj hin => hnone ⟨j, hj, hin⟩)

/-- Storing bytes that lie in the host page of a guest page. -/
theorem writeBytes (hj : j ∈ pages) {a : Word} {k : ℕ} (v : BitVec (8 * k))
    (hin : ∀ b : Word, (b - a).toNat < k → InFrame (host j) b) :
    WritesWithin host pages m (ByteMemory.writeBytes m a k v) := by
  intro b hb
  refine writeBytes_apply_of_le (Nat.le_of_not_lt fun hlt => ?_)
  exact hb j hj (hin b hlt)

/-- Storing an entry of a table that lies in a guest page. -/
theorem writeSlot (hj : j ∈ pages) (i : Slot) (v : BitVec 64) :
    WritesWithin host pages m (writeQword m (slotAddress (host j) i) v) := by
  refine writeBytes hj (k := 8) v fun b hb => ?_
  have hslot := inFrame_slot (host j) i hb
  rwa [BitVec.add_comm, BitVec.sub_add_cancel] at hslot

/-- Filling a guest page. -/
theorem fillPage (hj : j ∈ pages) (v : BitVec 8) :
    WritesWithin host pages m (fill m (frameAddress (host j)) v 4096) :=
  fun _ hb => fill_apply_of_le (Nat.le_of_not_lt fun hlt => hb j hj hlt)

end WritesWithin

/-! ## Machines whose guest memory is written -/

/-- A state with another memory and another record of a machine. -/
def settingUp (s : Hv) (vm : Word) (m : Memory) (v : Vm) : Hv :=
  { s with memory := m, vmAt := Function.update s.vmAt vm v }

@[simp] theorem settingUp_memory (s : Hv) (vm : Word) (m : Memory) (v : Vm) :
    (settingUp s vm m v).memory = m := rfl

@[simp] theorem settingUp_vmAt (s : Hv) (vm : Word) (m : Memory) (v : Vm) :
    (settingUp s vm m v).vmAt vm = v := by
  simp only [settingUp, Function.update_self]

@[simp] theorem settingUp_settingUp (s : Hv) (vm : Word) (m m' : Memory) (v v' : Vm) :
    settingUp (settingUp s vm m v) vm m' v' = settingUp s vm m' v' := by
  simp only [settingUp, Function.update_idem]

theorem settingUp_self (s : Hv) (vm : Word) : settingUp s vm s.memory (s.vmAt vm) = s := by
  rw [settingUp, Function.update_eq_self]

/-- Changing the record once more. -/
theorem modifyVm_settingUp (s : Hv) (vm : Word) (m : Memory) (v : Vm) (f : Vm → Vm) :
    modifyVm vm f (settingUp s vm m v) = .ok () (settingUp s vm m (f v)) := by
  have hrecord : settingUp (settingUp s vm m v) vm m (f ((settingUp s vm m v).vmAt vm)) =
      settingUp s vm m (f v) := by
    rw [settingUp_vmAt, settingUp_settingUp]
  exact congrArg (EStateM.Result.ok ()) hrecord

/-- Records with the same tables and the same pages. -/
structure SameTables (v v' : Vm) : Prop where
  flags : v'.flags = v.flags
  eptp : v'.vmcsConfig.eptp = v.vmcsConfig.eptp
  trackedPages : v'.trackedPages = v.trackedPages

theorem SameTables.refl (v : Vm) : SameTables v v := ⟨rfl, rfl, rfl⟩

theorem SameTables.trans {v v' v'' : Vm} (h : SameTables v v') (h' : SameTables v' v'') :
    SameTables v v'' :=
  ⟨h'.flags.trans h.flags, h'.eptp.trans h.eptp, h'.trackedPages.trans h.trackedPages⟩

/-- A frame tracked for tables is no guest page. -/
theorem guestPage_ne_ept (h : GuestMapped s vm n host) {f : Frame} {pool : Bool}
    (hf : (frameAddress f, .ept, pool) ∈ contents (trackedOf s vm)) : ∀ j < n, host j ≠ f := by
  intro j hj he
  have hkind := congrArg (fun t : TrackedPage => t.2.1)
    (h.ok.kind_unique (h.tracked j hj) hf (congrArg frameAddress he))
  cases hkind

/-- Writing guest pages keeps the guest memory. -/
theorem guestMapped_settingUp (h : GuestMapped s vm n host) {m : Memory} {v : Vm}
    (hv : SameTables (s.vmAt vm) v) (hm : WritesWithin host {j | j < n} s.memory m) :
    GuestMapped (settingUp s vm m v) vm n host := by
  have htracked : trackedOf (settingUp s vm m v) vm = trackedOf s vm := by
    rw [trackedOf, trackedOf, settingUp_vmAt, hv.trackedPages]
  have hframe : ∀ f pool, (frameAddress f, .ept, pool) ∈ contents (trackedOf s vm) →
      SameFrame s.memory m f := fun f pool hf =>
    hm.sameFrame fun j hj => guestPage_ne_ept h hf j hj
  have hkept := @MachineOk.of_same s (settingUp s vm m v) vm h.ok h.ok.listed rfl h.ok.cursor
    (by rw [hasEpt, hasEpt, settingUp_vmAt, hv.flags]) (by rw [settingUp_vmAt, hv.eptp])
    (by rw [htracked]; exact h.ok.entries)
    (by rw [machinePages, htracked]; exact h.ok.distinct)
    (fun f hf => ⟨by rw [htracked]; exact hf, hframe f false hf⟩)
    (fun f hf => by
      rw [htracked] at hf
      exact (h.ok.zeroed f hf).of_same (hframe f true hf))
  exact h.of_kept hkept.1 (fun t ht _ => by rw [htracked]; exact ht) hkept.2

/-- A guest memory has at most as many pages as four levels of tables map. -/
theorem guestMapped_le (h : GuestMapped s vm n host) : n ≤ 2 ^ 36 := by
  by_contra hlarge
  have hpath : eptPath (guestPage (2 ^ 36)) = eptPath (guestPage 0) := by decide
  have hfirst := h.mapped 0 (by omega)
  have hlast := h.mapped (2 ^ 36) (by omega)
  rw [hpath, hfirst] at hlast
  have hentry : eptEntry (frameAddress (host 0)) = eptEntry (frameAddress (host (2 ^ 36))) := by
    injection hlast
  have hframe := congrArg frameOf hentry
  rw [frameOf_eptEntry, frameOf_eptEntry, frameOf_frameAddress, frameOf_frameAddress] at hframe
  have hindex := h.injective 0 (by omega) (2 ^ 36) (by omega) hframe
  omega

/-! ## Bytes behind guest addresses -/

/-- The offset of an address in its page. -/
theorem linearAddressGetOffset_eq (gpa : Word) :
    linearAddressGetOffset gpa = BitVec.ofNat 64 (gpa.toNat % 4096) :=
  and_fieldMask_mod gpa 12

/-- A byte of the host page of a guest page lies behind an address of that page. -/
theorem exists_behind (h : GuestMapped s vm n host) {j : ℕ} (hj : j < n) {a : Word}
    (ha : InFrame (host j) a) :
    ∃ gpa : Word, gpa.toNat / 4096 = j ∧
      vmxEptGetHostPhysicalAddress s.memory (s.vmAt vm) gpa = some a := by
  have hle := guestMapped_le h
  have hoffset : (a - frameAddress (host j)).toNat < 4096 := ha
  have hpage := toNat_guestPage (i := j) (by omega)
  have hvalue : (guestPage j + (a - frameAddress (host j))).toNat =
      j * 4096 + (a - frameAddress (host j)).toNat := by
    rw [BitVec.toNat_add, hpage]
    omega
  have hdiv : (guestPage j + (a - frameAddress (host j))).toNat / 4096 = j := by
    rw [hvalue]
    omega
  refine ⟨guestPage j + (a - frameAddress (host j)), hdiv, ?_⟩
  have hmod : (guestPage j + (a - frameAddress (host j))).toNat % 4096 =
      (a - frameAddress (host j)).toNat := by
    rw [hvalue]
    omega
  rw [h.walk hle (by omega), hdiv, linearAddressGetOffset_eq, hmod, BitVec.ofNat_toNat,
    BitVec.setWidth_eq, BitVec.add_comm, BitVec.sub_add_cancel]

/-- Every changed byte lies behind an address of some of the guest pages. -/
def ChangesBehind (s : Hv) (vm : Word) (pages : Set ℕ) (m' : Memory) : Prop :=
  ∀ a, m' a ≠ s.memory a → ∃ gpa : Word, gpa.toNat / 4096 ∈ pages ∧
    vmxEptGetHostPhysicalAddress s.memory (s.vmAt vm) gpa = some a

theorem WritesWithin.changesBehind {pages : Set ℕ} {m' : Memory}
    (hm : WritesWithin host pages s.memory m') (h : GuestMapped s vm n host)
    (hpages : ∀ j ∈ pages, j < n) : ChangesBehind s vm pages m' := by
  intro a ha
  obtain ⟨j, hj, hin⟩ := hm.exists_of_ne ha
  obtain ⟨gpa, hgpa, hwalk⟩ := exists_behind h (hpages j hj) hin
  exact ⟨gpa, by rwa [hgpa], hwalk⟩

end Rkhv.GuestSetup
