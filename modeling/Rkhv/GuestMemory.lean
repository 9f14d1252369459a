import Rkhv.EptAgreement
import Rkhv.VmManager

/-!
# Guest memory of a machine

`vm_manager_allocate_guest_physical_memory` gives every page of the guest its
own host page: the page is new, tracked as a guest page and the only one that
the tables give for its address. This holds after every round of the loop for
the guest pages so far, and mapping a page disturbs none of the others.
-/

namespace Rkhv.GuestMemory

open ByteMemory HostTypes HostState StateOutcome FreePages PageTracker PageTrackerRuns VmxPages
  RadixWalk Ept EptWalk MachinePages MachineSteps EptMapping EptAgreement VmManager

variable {vm : Word} {s s' : Hv}

/-- The guest physical page of an index. -/
def guestPage (i : ℕ) : Word := BitVec.ofNat 64 i * pageSize

theorem toNat_guestPage {i : ℕ} (h : i < 2 ^ 36) : (guestPage i).toNat = i * 4096 := by
  have hsize : pageSize.toNat = 4096 := rfl
  rw [guestPage, BitVec.toNat_mul, BitVec.toNat_ofNat, hsize]
  omega

/-- The first `2 ^ 36` pages fit the tables. -/
theorem guestPage_ok {i : ℕ} (h : i < 2 ^ 36) : GuestPage (guestPage i) := by
  rw [GuestPage, toNat_guestPage h]
  omega

/-- Different pages have different paths. -/
theorem eptPath_guestPage_inj {i j : ℕ} (hi : i < 2 ^ 36) (hj : j < 2 ^ 36)
    (h : eptPath (guestPage i) = eptPath (guestPage j)) : i = j := by
  have he := congrArg BitVec.toNat (GuestPage.eptPath_inj (guestPage_ok hi) (guestPage_ok hj) h)
  rw [toNat_guestPage hi, toNat_guestPage hj] at he
  omega

/-- A guest memory of `n` pages: each page is mapped to a host page of its own
that is tracked as a guest page, and nothing else is mapped. -/
structure GuestMapped (s : Hv) (vm : Word) (n : ℕ) (host : ℕ → Frame) : Prop where
  ok : MachineOk s vm
  mapped : ∀ i < n, eptFollow s vm (eptPath (guestPage i)) = .leaf (eptEntry (frameAddress (host i))) []
  tracked : ∀ i < n, (frameAddress (host i), .guestPhysical, false) ∈ contents (trackedOf s vm)
  injective : ∀ i < n, ∀ j < n, host i = host j → i = j
  absent : ∀ q, q.length = 4 → (∀ i < n, q ≠ eptPath (guestPage i)) → eptFollow s vm q = .absent

/-- A machine without tables has an empty guest memory. -/
theorem guestMapped_empty (h : MachineOk s vm) (hnone : ¬hasEpt (s.vmAt vm)) (host : ℕ → Frame) :
    GuestMapped s vm 0 host :=
  ⟨h, fun _ hi => absurd hi (Nat.not_lt_zero _), fun _ hi => absurd hi (Nat.not_lt_zero _),
    fun _ hi => absurd hi (Nat.not_lt_zero _), fun _ _ _ => if_neg hnone⟩

/-- The address behind an address of the guest memory. -/
theorem GuestMapped.walk {n : ℕ} {host : ℕ → Frame} (h : GuestMapped s vm n host) (hn : n ≤ 2 ^ 36)
    {gpa : Word} (hgpa : gpa.toNat < n * 4096) :
    vmxEptGetHostPhysicalAddress s.memory (s.vmAt vm) gpa =
      some (frameAddress (host (gpa.toNat / 4096)) + linearAddressGetOffset gpa) := by
  have hi : gpa.toNat / 4096 < n := by omega
  have hpath : eptPath gpa = eptPath (guestPage (gpa.toNat / 4096)) := by
    rw [eptPath_eq_iff (guestPage_ok (by omega)) (by omega), InPage, toNat_guestPage (by omega)]
    omega
  rw [walk_eq h.ok, hpath, h.mapped _ hi]
  exact congrArg some (leafAddress_eptEntry (pageOk_frameAddress _) gpa)

/-- Nothing is mapped from the end of the guest memory to the end of what the
tables can hold. -/
theorem GuestMapped.walk_none {n : ℕ} {host : ℕ → Frame} (h : GuestMapped s vm n host)
    (hn : n ≤ 2 ^ 36) {gpa : Word} (hgpa : n * 4096 ≤ gpa.toNat) (hlimit : gpa.toNat < 2 ^ 48) :
    vmxEptGetHostPhysicalAddress s.memory (s.vmAt vm) gpa = none := by
  rw [walk_eq h.ok, h.absent _ rfl fun i hi hpath => ?_]
  rw [eptPath_eq_iff (guestPage_ok (by omega)) hlimit, InPage, toNat_guestPage (by omega)] at hpath
  omega

/-! ## One round -/

/-- A failed part of an operation: what was taken is accounted for. -/
def Stopped (vm : Word) (s s' : Hv) : Prop := ∃ loose taken, Grown vm s s' loose taken

theorem Stopped.after {s'' : Hv} {taken : List Word} (h : Grown vm s s' [] taken)
    (h' : Stopped vm s' s'') : Stopped vm s s'' := by
  obtain ⟨loose, taken', hgrown⟩ := h'
  exact ⟨loose, taken' ++ taken, h.trans hgrown⟩

theorem Refused.stopped {e : Fault} (h : Refused vm s e s') : Stopped vm s s' := h.1

/-- Machine operations leave the size of the guest memory alone. -/
theorem grown_guestPhysicalPages {loose taken : List Word} (h : Grown vm s s' loose taken) :
    (s'.vmAt vm).guestPhysicalPages = (s.vmAt vm).guestPhysicalPages := by
  obtain ⟨_, _, _, hv, _⟩ := h.frame.machine
  rw [hv]

/-- A round of the first loop adds a reserved page and changes no path. -/
theorem reserveEptPage_spec (h : MachineOk s vm) :
    Ensures (reserveEptPage vm) s
      (fun _ s' => MachineOk s' vm ∧ (∃ taken, Grown vm s s' [] taken) ∧
        ∀ q, q.length ≤ 4 → eptFollow s' vm q = eptFollow s vm q)
      (fun _ s' => Stopped vm s s') := by
  simp only [reserveEptPage, ensures_bind]
  refine (vmxGetFreeEptPage_spec h).mono ?_ ?_
  · rintro _ s₁ ⟨f, rfl, hloose⟩
    rw [v2p_p2v]
    refine (hloose.track h .ept true).mono ?_ fun _ _ he => Refused.stopped he
    exact fun _ s₂ htracked => ⟨htracked.ok, htracked.grown, htracked.follow⟩
  · rintro e s' ⟨rfl, _⟩
    exact ⟨[], [], Grown.refl vm s'⟩

/-- What a round of the second loop does: a new host page is tracked as a guest
page and mapped. -/
structure GuestPageAdded (vm : Word) (s s' : Hv) (gpa : Word) (f : Frame) : Prop where
  ok : MachineOk s' vm
  grown : ∃ taken, Grown vm s s' [] taken
  fresh : frameAddress f ∉ machinePages s vm
  tracked : (frameAddress f, .guestPhysical, false) ∈ contents (trackedOf s' vm)
  absent : eptFollow s vm (eptPath gpa) = .absent
  follow : ∀ q, q.length = 4 → eptFollow s' vm q =
    if q = eptPath gpa then .leaf (eptEntry (frameAddress f)) [] else eptFollow s vm q

theorem addGuestPage_spec (h : MachineOk s vm) (gpa : Word) :
    Ensures (addGuestPage vm gpa) s (fun _ s' => ∃ f, GuestPageAdded vm s s' gpa f)
      (fun _ s' => Stopped vm s s') := by
  rw [addGuestPage, ensures_bind]
  refine (zeroPage_spec h id).mono ?_ ?_
  · rintro _ s₁ ⟨f, rfl, hloose, hfresh⟩
    rw [ensures_bind]
    refine (hloose.track h .guestPhysical false).mono ?_ fun _ _ he => Refused.stopped he
    intro _ s₂ htracked
    obtain ⟨taken, hgrown⟩ := htracked.grown
    refine (vmxEptMapPage_spec htracked.ok gpa (frameAddress f)).mono ?_ ?_
    · intro _ s₃ hm
      obtain ⟨taken', hgrown'⟩ := hm.grown
      refine ⟨f, hm.ok, ⟨taken' ++ taken, hgrown.trans hgrown'⟩, hfresh, ?_, ?_, fun q hq => ?_⟩
      · exact hgrown'.kinds _ htracked.tracked (by simp)
      · rw [← htracked.follow (eptPath gpa) (Nat.le_refl 4), hm.absent]
      · rw [hm.follow q hq, htracked.follow q hq.le]
    · rintro e s₃ (⟨_, _, _, _, rfl⟩ | ⟨_, he⟩)
      · exact ⟨[], taken, hgrown⟩
      · exact (Refused.stopped he).after hgrown
  · rintro e s' ⟨rfl, _⟩
    exact ⟨[], [], Grown.refl vm s'⟩

/-- A round extends the guest memory by one page. -/
theorem GuestMapped.add {n : ℕ} {host : ℕ → Frame} {f : Frame} (h : GuestMapped s vm n host)
    (ha : GuestPageAdded vm s s' (guestPage n) f) :
    GuestMapped s' vm (n + 1) (Function.update host n f) := by
  obtain ⟨taken, hgrown⟩ := ha.grown
  have hold : ∀ i < n, Function.update host n f i = host i := fun i hi =>
    Function.update_of_ne (Nat.ne_of_lt hi) _ _
  have hfresh : ∀ i < n, host i ≠ f := fun i hi he =>
    ha.fresh (he ▸ MachineOk.mem_machinePages (h.tracked i hi))
  refine ⟨ha.ok, fun i hi => ?_, fun i hi => ?_, fun i hi j hj he => ?_, fun q hq hne => ?_⟩
  · rw [ha.follow _ rfl]
    by_cases hin : i < n
    · have hpath : eptPath (guestPage i) ≠ eptPath (guestPage n) := fun he => by
        have hmapped := h.mapped i hin
        rw [he, ha.absent] at hmapped
        cases hmapped
      rw [if_neg hpath, hold i hin, h.mapped i hin]
    · have he : i = n := by omega
      rw [he, if_pos rfl, Function.update_self]
  · by_cases hin : i < n
    · rw [hold i hin]
      exact hgrown.kinds _ (h.tracked i hin) (by simp)
    · have he : i = n := by omega
      rw [he, Function.update_self]
      exact ha.tracked
  · by_cases hin : i < n <;> by_cases hjn : j < n
    · rw [hold i hin, hold j hjn] at he
      exact h.injective i hin j hjn he
    · have hj' : j = n := by omega
      rw [hold i hin, hj', Function.update_self] at he
      exact absurd he (hfresh i hin)
    · have hi' : i = n := by omega
      rw [hold j hjn, hi', Function.update_self] at he
      exact absurd he.symm (hfresh j hjn)
    · omega
  · rw [ha.follow q hq, if_neg (hne n (Nat.lt_succ_self n)),
      h.absent q hq fun i hi => hne i (Nat.lt_succ_of_lt hi)]

/-! ## The whole allocation -/

/-- The state in which a machine has a size of guest memory. -/
def sized (s : Hv) (vm guestPhysicalPages : Word) : Hv :=
  { s with
    vmAt := Function.update s.vmAt vm
      { s.vmAt vm with guestPhysicalPages := guestPhysicalPages } }

theorem sized_vmAt (s : Hv) (vm n : Word) :
    (sized s vm n).vmAt vm = { s.vmAt vm with guestPhysicalPages := n } := by
  simp only [sized, Function.update_self]

theorem trackedOf_sized (s : Hv) (vm n w : Word) : trackedOf (sized s vm n) w = trackedOf s w := by
  by_cases hw : w = vm
  · rw [hw, trackedOf, sized_vmAt]
    rfl
  · exact congrArg Vm.trackedPages (Function.update_of_ne hw _ _)

/-- The size changes no path. -/
theorem eptFollow_sized (s : Hv) (vm n : Word) (q : List Slot) :
    eptFollow (sized s vm n) vm q = eptFollow s vm q := by
  rw [eptFollow, eptFollow, sized_vmAt]
  rfl

/-- The size does not matter to what a machine needs to be in order. -/
theorem machineOk_sized (h : MachineOk s vm) (n : Word) : MachineOk (sized s vm n) vm where
  listed := h.listed
  map := h.map
  cursor := h.cursor
  entries := by
    rw [trackedOf_sized]
    exact h.entries
  distinct := by
    rw [machinePages, trackedOf_sized]
    exact h.distinct
  zeroed := by
    rw [trackedOf_sized]
    exact h.zeroed
  tree := by
    rw [sized_vmAt]
    exact fun hept => ⟨(h.tree hept).root, (h.tree hept).separate, (h.tree hept).tables⟩

theorem GuestMapped.sized {n : ℕ} {host : ℕ → Frame} (h : GuestMapped s vm n host) (size : Word) :
    GuestMapped (sized s vm size) vm n host := by
  refine ⟨machineOk_sized h.ok size, fun i hi => ?_, fun i hi => ?_, h.injective, fun q hq hne => ?_⟩
  · rw [eptFollow_sized, h.mapped i hi]
  · rw [trackedOf_sized]
    exact h.tracked i hi
  · rw [eptFollow_sized, h.absent q hq hne]

/-- Steps that change no path and no guest page keep the guest memory. -/
theorem GuestMapped.of_kept {n : ℕ} {host : ℕ → Frame} (h : GuestMapped s vm n host)
    (hok : MachineOk s' vm)
    (hkinds : ∀ t ∈ contents (trackedOf s vm), t.2 ≠ (.ept, true) → t ∈ contents (trackedOf s' vm))
    (hfollow : ∀ q, q.length ≤ 4 → eptFollow s' vm q = eptFollow s vm q) :
    GuestMapped s' vm n host := by
  refine ⟨hok, fun i hi => ?_, fun i hi => ?_, h.injective, fun q hq hne => ?_⟩
  · rw [hfollow (eptPath (guestPage i)) (Nat.le_refl 4), h.mapped i hi]
  · exact hkinds _ (h.tracked i hi) (by simp)
  · rw [hfollow q hq.le, h.absent q hq hne]

/-- What holds between the rounds of the allocation: the machine is in order,
its pages are accounted for and an empty guest memory has grown. -/
structure Allocating (vm : Word) (s s' : Hv) (i : ℕ) : Prop where
  ok : MachineOk s' vm
  grown : ∃ taken, Grown vm s s' [] taken
  guest : ∀ host, GuestMapped s vm 0 host → ∃ host, GuestMapped s' vm i host

/-- The rounds of the first loop. -/
theorem reserveEptPages_spec {s₁ : Hv} (h : Allocating vm s s₁ 0) (rounds : ℕ) :
    Ensures (forRange rounds fun _ => reserveEptPage vm) s₁
      (fun _ s' => Allocating vm s s' 0) (fun _ s' => Stopped vm s s') := by
  refine ensures_forRange (fun _ t => Allocating vm s t 0) h fun _ t _ ht => ?_
  obtain ⟨taken, hgrown⟩ := ht.grown
  refine (reserveEptPage_spec ht.ok).mono ?_ fun _ _ he => he.after hgrown
  rintro _ t' ⟨hok, ⟨taken', hgrown'⟩, hfollow⟩
  refine ⟨hok, ⟨taken' ++ taken, hgrown.trans hgrown'⟩, fun host hg => ?_⟩
  obtain ⟨host', hg'⟩ := ht.guest host hg
  exact ⟨host', hg'.of_kept hok hgrown'.kinds hfollow⟩

/-- The rounds of the second loop. -/
theorem addGuestPages_spec {s₁ : Hv} (h : Allocating vm s s₁ 0) (n : ℕ) :
    Ensures (forRange n fun i => addGuestPage vm (guestPage i)) s₁
      (fun _ s' => Allocating vm s s' n) (fun _ s' => Stopped vm s s') := by
  refine ensures_forRange (fun i t => Allocating vm s t i) h fun i t _ ht => ?_
  obtain ⟨taken, hgrown⟩ := ht.grown
  refine (addGuestPage_spec ht.ok (guestPage i)).mono ?_ fun _ _ he => he.after hgrown
  rintro _ t' ⟨f, hadded⟩
  obtain ⟨taken', hgrown'⟩ := hadded.grown
  refine ⟨hadded.ok, ⟨taken' ++ taken, hgrown.trans hgrown'⟩, fun host hg => ?_⟩
  obtain ⟨host', hg'⟩ := ht.guest host hg
  exact ⟨_, hg'.add hadded⟩

/-- The allocation gives a machine a guest memory of the size asked for. -/
theorem vmManagerAllocateGuestPhysicalMemory_spec (h : MachineOk s vm) (n : Word) :
    Ensures (vmManagerAllocateGuestPhysicalMemory vm n) s
      (fun _ s' => (s.vmAt vm).guestPhysicalPages = 0 ∧ Allocating vm (sized s vm n) s' n.toNat)
      (fun _ s' => s' = s ∨ Stopped vm (sized s vm n) s') := by
  rw [vmManagerAllocateGuestPhysicalMemory, ensures_bind, ensures_get, ensures_ite]
  refine ⟨fun _ => Or.inl rfl, fun hsize => ?_⟩
  rw [not_not] at hsize
  rw [ensures_bind, ensures_modifyVm, ensures_bind]
  have hstart : Allocating vm (sized s vm n) (sized s vm n) 0 :=
    ⟨machineOk_sized h n, ⟨[], Grown.refl _ _⟩, fun host hg => ⟨host, hg⟩⟩
  -- the number of rounds stays a variable, so that it is not evaluated
  generalize (eptPages n).toNat = rounds
  refine (reserveEptPages_spec hstart rounds).mono ?_ fun _ _ he => Or.inr he
  intro _ t ht
  exact (addGuestPages_spec ht n.toNat).mono (fun _ _ ht' => ⟨hsize, ht'⟩) fun _ _ he => Or.inr he

end Rkhv.GuestMemory
