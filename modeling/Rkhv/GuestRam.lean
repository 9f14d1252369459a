import Rkhv.GuestIsolation

/-!
# The extent of a guest memory

A machine fresh from `vm_manager_allocate_guest_physical_memory` resolves every
address of its guest memory. The walker takes its four indexes from the low 48
bits of an address, so beyond them it resolves what lies at the address modulo
`2 ^ 48`, where four levels of tables have no translation at all.
-/

namespace Rkhv.GuestRam

open ByteMemory WordFields HostTypes HostState StateOutcome PageRuns PageTracker PageTrackerRuns RadixWalk
  Ept EptWalk VmManager EptAgreement MachinePages MachineSteps GuestMemory HostPages HostSteps
  HostOperations HostRuns GuestIsolation

variable {hw : Hardware} {s s' : Hv} {vm n gpa : Word}

/-- A listed machine as `vm_manager_create_vmx_machine` left it. -/
def FreshMachine (s : Hv) (vm : Word) : Prop :=
  vm ∈ s.vmManagerVmList ∧ ∃ name, s.vmAt vm = newVm name

/-- The hypervisor ran, on a map of physical pages, up to a state with a fresh
machine. -/
structure ReachedFresh (hw : Hardware) (s : Hv) (vm : Word) : Prop where
  run : ∃ c memory cpu, PhysicalMap c.efiMmapUsable ∧
    HostRun hw OnListed (bootState c memory cpu) s
  fresh : FreshMachine s vm

/-- Fresh from `vm_manager_allocate_guest_physical_memory(vm, n)`. -/
def Allocated (hw : Hardware) (s' : Hv) (vm n : Word) : Prop :=
  ∃ s, ReachedFresh hw s vm ∧ vmManagerAllocateGuestPhysicalMemory vm n s = .ok () s'

theorem ReachedFresh.hostOk (h : ReachedFresh hw s vm) : HostOk s := by
  obtain ⟨c, memory, cpu, hmap, hrun⟩ := h.run
  exact hrun.hostOk (hostOk_boot hmap memory cpu) fun _ _ hp => hp

/-- A fresh machine has no tables, and nothing is mapped. -/
theorem ReachedFresh.guestMapped (h : ReachedFresh hw s vm) (host : ℕ → Frame) :
    GuestMapped s vm 0 host := by
  obtain ⟨hvm, name, hrecord⟩ := h.fresh
  refine guestMapped_empty (h.hostOk.machines vm hvm) ?_ host
  rw [hrecord, hasEpt, newVm_flags]
  decide

/-- What an allocation for a fresh machine leaves behind. -/
structure GuestAllocated (s' : Hv) (vm n : Word) : Prop where
  host : HostOk s'
  listed : vm ∈ s'.vmManagerVmList
  mapped : ∃ host, GuestMapped s' vm n.toNat host
  record : ∃ name tracked eptp flags, s'.vmAt vm = { newVm name with
      guestPhysicalPages := n
      trackedPages := tracked
      vmcsConfig := { (newVm name).vmcsConfig with eptp := eptp }
      flags := flags }

theorem Allocated.guest (h : Allocated hw s' vm n) : GuestAllocated s' vm n := by
  obtain ⟨s, hreached, hcall⟩ := h
  obtain ⟨hvm, name, hrecord⟩ := hreached.fresh
  obtain ⟨hdone, _, _, hguest⟩ := (allocate_host hreached.hostOk hvm n).of_ok hcall
  obtain ⟨_, halloc⟩ :=
    (vmManagerAllocateGuestPhysicalMemory_spec (hreached.hostOk.machines vm hvm) n).of_ok hcall
  obtain ⟨taken, hgrown⟩ := halloc.grown
  obtain ⟨tracked, eptp, flags, hv, _⟩ := hgrown.frame.machine
  rw [sized_vmAt, hrecord] at hv
  exact ⟨hdone.ok, hdone.vmList.symm ▸ hvm, hguest _ (hreached.guestMapped fun _ => 0),
    name, tracked, eptp, flags, hv⟩

theorem GuestAllocated.size (h : GuestAllocated s' vm n) : (s'.vmAt vm).guestPhysicalPages = n := by
  obtain ⟨_, _, _, _, hv⟩ := h.record
  rw [hv]

/-! ## What the walker resolves -/

/-- The low 48 bits of an address. -/
def low48 (gpa : Word) : Word := BitVec.ofNat 64 (gpa.toNat % 2 ^ 48)

theorem toNat_low48 (gpa : Word) : (low48 gpa).toNat = gpa.toNat % 2 ^ 48 := by
  rw [low48, BitVec.toNat_ofNat]
  exact Nat.mod_eq_of_lt ((Nat.mod_lt _ (by decide)).trans (by decide))

/-- The path of an address depends on its low 48 bits only. -/
theorem eptPath_low48 (gpa : Word) : eptPath (low48 gpa) = eptPath gpa := by
  have hslot : ∀ k, k + 9 ≤ 48 → (low48 gpa).extractLsb' k 9 = gpa.extractLsb' k 9 := fun k hk => by
    apply BitVec.eq_of_toNat_eq
    rw [BitVec.extractLsb'_toNat, BitVec.extractLsb'_toNat, toNat_low48, Nat.shiftRight_eq_div_pow,
      Nat.shiftRight_eq_div_pow]
    rw [show 2 ^ 48 = 2 ^ k * 2 ^ (48 - k) by rw [← Nat.pow_add]; congr 1; omega,
      Nat.mod_mul_right_div_self]
    exact Nat.mod_mod_of_dvd _ (Nat.pow_dvd_pow 2 (by omega))
  simp only [eptPath, hslot 39 (by decide), hslot 30 (by decide), hslot 21 (by decide),
    hslot 12 (by decide)]

/-- The walker resolves an address when its low 48 bits lie in the guest memory. -/
theorem GuestMapped.resolves_iff {i : ℕ} {host : ℕ → Frame} (h : GuestMapped s vm i host)
    (hi : i ≤ 2 ^ 36) (gpa : Word) :
    (vmxEptGetHostPhysicalAddress s.memory (s.vmAt vm) gpa).isSome = true ↔
      gpa.toNat % 2 ^ 48 < i * 4096 := by
  have hsame : (vmxEptGetHostPhysicalAddress s.memory (s.vmAt vm) gpa).isSome =
      (vmxEptGetHostPhysicalAddress s.memory (s.vmAt vm) (low48 gpa)).isSome := by
    rw [walk_eq h.ok, walk_eq h.ok, eptPath_low48]
    split <;> rfl
  rw [hsame, ← toNat_low48]
  by_cases hin : (low48 gpa).toNat < i * 4096
  · rw [h.walk hi hin]
    exact iff_of_true rfl hin
  · have hlimit : (low48 gpa).toNat < 2 ^ 48 := by
      rw [toNat_low48]
      exact Nat.mod_lt _ (by decide)
    rw [h.walk_none hi (by omega) hlimit]
    exact iff_of_false Bool.false_ne_true hin

/-- The walker resolves exactly the addresses below the end of the guest memory,
at every address below `2 ^ 48` and at those above whose low 48 bits lie beyond
the guest memory. -/
theorem allocated_resolves_iff (h : Allocated hw s' vm n) (hn : n.toNat ≤ 512 ^ 4) (gpa : Word) :
    ((vmxEptGetHostPhysicalAddress s'.memory (s'.vmAt vm) gpa).isSome = true ↔
      gpa.toNat < n.toNat * 4096) ↔
    (gpa.toNat < 2 ^ 48 ∨ n.toNat * 4096 ≤ gpa.toNat % 2 ^ 48) := by
  obtain ⟨host, hmapped⟩ := h.guest.mapped
  rw [GuestMapped.resolves_iff hmapped hn gpa]
  have hextent : n.toNat * 4096 ≤ 2 ^ 48 := by omega
  by_cases hlow : gpa.toNat < 2 ^ 48
  · rw [Nat.mod_eq_of_lt hlow]
    exact iff_of_true Iff.rfl (Or.inl hlow)
  · have hbeyond : ¬gpa.toNat < n.toNat * 4096 := by omega
    rw [iff_false_right hbeyond, or_iff_right hlow, Nat.not_lt]

/-! ## A machine with two pages -/

/-- The host with sixteen pages allocates a guest memory of two. -/
theorem exists_allocated_two : ∃ s, Allocated obedientHardware s firstOfSixteen 2 := by
  have hbuild : returnsWith (hostOp obedientHardware (.createVmxMachine "guest") (smallHost 16))
      (fun s => (s.vmManagerVmList == [firstOfSixteen] && s.vmAt firstOfSixteen == newVm "guest") &&
        returnsWith (hostOp obedientHardware (.allocateGuestPhysicalMemory firstOfSixteen 2) s)
          fun _ => true) = true := by
    decide +kernel
  obtain ⟨s₁, h₁, htest⟩ := exists_of_returnsWith hbuild
  obtain ⟨hcreated, htest⟩ := (Bool.and_eq_true _ _).mp htest
  obtain ⟨hlist, hrecord⟩ := (Bool.and_eq_true _ _).mp hcreated
  obtain ⟨s₂, h₂, _⟩ := exists_of_returnsWith htest
  have hmap : PhysicalMap (smallMap 16) :=
    physicalMap_smallMap fun page hp => by fin_cases hp <;> exact ⟨by decide, by decide⟩
  have hrun : HostRun obedientHardware OnListed (smallHost 16) s₁ := .step .start (by exact trivial) h₁
  have hlisted : firstOfSixteen ∈ s₁.vmManagerVmList := by
    rw [beq_iff_eq.mp hlist]
    exact List.mem_singleton_self _
  exact ⟨s₂, s₁, ⟨⟨_, _, _, hmap, hrun⟩, hlisted, "guest", beq_iff_eq.mp hrecord⟩, h₂⟩

/-- The last byte of two pages resolves and the next one does not. -/
theorem allocated_resolves_two : ∃ s : Hv,
    (vmxEptGetHostPhysicalAddress s.memory (s.vmAt firstOfSixteen) 0x1fff).isSome = true ∧
      ¬(vmxEptGetHostPhysicalAddress s.memory (s.vmAt firstOfSixteen) 0x2000).isSome = true := by
  obtain ⟨s, h⟩ := exists_allocated_two
  have hlast := (allocated_resolves_iff h (by decide) 0x1fff).mpr (Or.inl (by decide))
  have hnext := (allocated_resolves_iff h (by decide) 0x2000).mpr (Or.inl (by decide))
  exact ⟨s, hlast.mpr (by decide), fun hr => absurd (hnext.mp hr) (by decide)⟩

/-- An address of a 52-bit page-table entry resolves although it lies far above
the two pages of the guest memory. -/
theorem allocated_resolves_beyond : ∃ s, Allocated obedientHardware s firstOfSixteen 2 ∧
    (vmxEptGetHostPhysicalAddress s.memory (s.vmAt firstOfSixteen) 0x1000000000000).isSome = true ∧
      ¬(0x1000000000000 : Word).toNat < (2 : Word).toNat * 4096 := by
  obtain ⟨s, h⟩ := exists_allocated_two
  obtain ⟨host, hmapped⟩ := h.guest.mapped
  refine ⟨s, h, ?_, by decide⟩
  exact (GuestMapped.resolves_iff hmapped (by decide) _).mpr (by decide)

end Rkhv.GuestRam
