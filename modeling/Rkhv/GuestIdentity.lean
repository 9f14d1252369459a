import Rkhv.GuestRam
import Rkhv.GuestSetup
import Rkhv.NestedWalk

/-!
# Identity tables of a guest

`vm_guest_paging_setup_identity` writes one PML4, one page-directory-pointer
table and 512 page directories, downwards from the last page of the guest
memory. Every round of its loop adds one directory below the ones so far; when
the pages of the guest run out first, the next address wraps below zero, where
nothing is mapped. The walker then reads the identity back from these tables.
-/

namespace Rkhv.GuestIdentity

open ByteMemory WordFields HostTypes HostState StateOutcome PageTracker PageTrackerRuns RadixWalk Ept
  EptWalk EptAgreement MachinePages GuestMemory GuestIsolation GuestRam GuestSetup VmGuestPaging
  HostRuns NestedWalk

variable {hw : Hardware} {s s' : Hv} {vm : Word} {n : ℕ} {host : ℕ → Frame} {m m' : Memory}

/-! ## Guest pages counted from the end -/

theorem guestPage_sub (j i : ℕ) :
    guestPage (j + i) - BitVec.ofNat 64 i * pageSize = guestPage j := by
  rw [guestPage, guestPage, BitVec.ofNat_add, BitVec.add_mul, BitVec.add_sub_cancel]

theorem guestPage_sub_succ (i : ℕ) :
    guestPage i - (BitVec.ofNat 64 i + 1) * pageSize = -pageSize := by
  have hone : (1 : Word) * pageSize = pageSize := BitVec.one_mul pageSize
  rw [guestPage, BitVec.add_mul, hone]
  exact sub_add_cancel_left _ _

/-- The first byte of a guest page is the first byte of its host page. -/
theorem walk_guestPage (h : GuestMapped s vm n host) {j : ℕ} (hj : j < n) :
    vmxEptGetHostPhysicalAddress s.memory (s.vmAt vm) (guestPage j) =
      some (frameAddress (host j)) := by
  have hle := guestMapped_le h
  have hpage := toNat_guestPage (i := j) (by omega)
  have hoffset : linearAddressGetOffset (guestPage j) = 0 := by
    have halign : guestPage j &&& pageMask = guestPage j := and_pageMask (by omega)
    rw [linearAddressGetOffset, ← halign, BitVec.and_assoc]
    exact BitVec.and_zero
  have hzero : frameAddress (host j) + 0 = frameAddress (host j) := BitVec.add_zero _
  rw [h.walk hle (by omega), hoffset, hpage, Nat.mul_div_cancel _ (by decide), hzero]

/-- Below page zero nothing is mapped. -/
theorem walk_below (h : GuestMapped s vm n host) (hn : n < 2 ^ 36) :
    vmxEptGetHostPhysicalAddress s.memory (s.vmAt vm) (-pageSize) = none := by
  have hbelow := (GuestMapped.resolves_iff h hn.le (-pageSize)).not.mpr (by
    have hvalue : (-pageSize).toNat % 2 ^ 48 = 2 ^ 48 - 4096 := by decide
    omega)
  exact Option.not_isSome_iff_eq_none.mp hbelow

/-! ## Taking pages -/

/-- A state of the setup: another memory and a number of used pages. -/
def identityState (s : Hv) (vm : Word) (m : Memory) (used : ℕ) : Hv :=
  settingUp s vm m
    { s.vmAt vm with guestPhysicalPagesUsedByInitialSetup := BitVec.ofNat 64 used }

theorem guestMapped_identityState (h : GuestMapped s vm n host)
    (hm : WritesWithin host {j | j < n} s.memory m) (used : ℕ) :
    GuestMapped (identityState s vm m used) vm n host :=
  guestMapped_settingUp h ⟨rfl, rfl, rfl⟩ hm

theorem takeSetupPage_eq (s : Hv) (vm guestpa : Word) (m : Memory) (used : ℕ) :
    takeSetupPage vm guestpa (identityState s vm m used) =
      eptGetHostva vm guestpa (identityState s vm m (used + 1)) := by
  have hnext : modifyVm vm (fun v => { v with
      guestPhysicalPagesUsedByInitialSetup := v.guestPhysicalPagesUsedByInitialSetup + 1 })
      (identityState s vm m used) = .ok () (identityState s vm m (used + 1)) := by
    rw [identityState, identityState, modifyVm_settingUp, BitVec.ofNat_add]
    rfl
  rw [takeSetupPage, bind_of_ok hnext]

/-- A page of the guest memory is taken. -/
theorem takeSetupPage_ok (h : GuestMapped s vm n host)
    (hm : WritesWithin host {j | j < n} s.memory m) {j : ℕ} (hj : j < n) (used : ℕ) :
    takeSetupPage vm (guestPage j) (identityState s vm m used) =
      .ok (p2vIdentityMap (frameAddress (host j))) (identityState s vm m (used + 1)) := by
  have hwalk := walk_guestPage (guestMapped_identityState h hm (used + 1)) hj
  rw [takeSetupPage_eq, eptGetHostva, bind_of_ok (get_eq_ok.mpr ⟨rfl, rfl⟩), hwalk]
  rfl

/-- Below page zero no page is taken. -/
theorem takeSetupPage_below (h : GuestMapped s vm n host) (hn : n < 2 ^ 36)
    (hm : WritesWithin host {j | j < n} s.memory m) (used : ℕ) :
    ∃ message, takeSetupPage vm (-pageSize) (identityState s vm m used) =
      .error (.panic message) (identityState s vm m (used + 1)) := by
  have hwalk := walk_below (guestMapped_identityState h hm (used + 1)) hn
  rw [takeSetupPage_eq, eptGetHostva, bind_of_ok (get_eq_ok.mpr ⟨rfl, rfl⟩), hwalk]
  exact ⟨_, rfl⟩

/-! ## Filling tables -/

/-- Indexing a table with a number below 512 reaches its slots. -/
theorem element_ofNat (f : Frame) {i : ℕ} (hi : i < 512) :
    v2pIdentityMap (p2vIdentityMap (frameAddress f) + BitVec.ofNat 64 i * 8) =
      slotAddress f (BitVec.ofNat 9 i) := by
  rw [v2p_p2v_add, frameAddress_add_ofNat f hi]

/-- The first slots of a table are filled, and nothing else in memory changed. -/
def Filled (m m' : Memory) (f : Frame) (value : ℕ → Word) (k : ℕ) : Prop :=
  (∀ i : Slot, i.toNat < k → slotWord m' f i = value i.toNat) ∧ ∀ a, ¬InFrame f a → m' a = m a

/-- One more slot. -/
theorem Filled.succ {m m' : Memory} {f : Frame} {value : ℕ → Word} {k : ℕ}
    (h : Filled m m' f value k) (hk : k < 512) :
    Filled m (writeQword m' (slotAddress f (BitVec.ofNat 9 k)) (value k)) f value (k + 1) := by
  constructor
  · intro i hi
    rw [slotWord_writeSlot]
    by_cases hlast : i.toNat = k
    · have hslot : i = BitVec.ofNat 9 k := BitVec.eq_of_toNat_eq (by
        rw [BitVec.toNat_ofNat]
        omega)
      rw [if_pos ⟨rfl, hslot⟩, hlast]
    · have hslot : ¬(f = f ∧ i = BitVec.ofNat 9 k) := fun h => hlast (by
        rw [h.2, BitVec.toNat_ofNat]
        omega)
      rw [if_neg hslot]
      exact h.1 i (by omega)
  · intro a ha
    rw [← h.2 a ha]
    refine writeBytes_apply_of_le (Nat.le_of_not_lt fun hlt => ha ?_)
    have hin := inFrame_slot f (BitVec.ofNat 9 k) hlt
    rwa [BitVec.add_comm, BitVec.sub_add_cancel] at hin

/-- A loop that fills the slots of a table. -/
theorem fillTable_spec (t : Hv) (f : Frame) (value : ℕ → Word) {n : ℕ} (hn : n ≤ 512)
    {E : Fault → Hv → Prop} :
    Ensures (forRange n fun i =>
        writeElement (p2vIdentityMap (frameAddress f)) (BitVec.ofNat 64 i) (value i)) t
      (fun _ t' => t' = { t with memory := t'.memory } ∧ Filled t.memory t'.memory f value n) E := by
  refine ensures_forRange (fun (k : ℕ) (t' : Hv) => t' = { t with memory := t'.memory } ∧
    Filled t.memory t'.memory f value k) ?_ ?_
  · exact ⟨rfl, fun i hi => absurd hi (Nat.not_lt_zero _), fun _ _ => rfl⟩
  · intro k t' hk ht'
    obtain ⟨hsame, hfilled⟩ := ht'
    rw [ensures_writeElement, element_ofNat f (by omega)]
    constructor
    · rw [hsame]
    · exact hfilled.succ (by omega)

/-! ## The loop over the page directories -/

/-- The first `k` page directories are filled and referenced. -/
structure Laid (host : ℕ → Frame) (n k : ℕ) (m : Memory) : Prop where
  entries : ∀ j : Slot, j.toNat < k →
    slotWord m (host (n - 2)) j = tableEntry (guestPage (n - 3 - j.toNat))
  directories : ∀ j < k, ∀ i : Slot, slotWord m (host (n - 3 - j)) i = identityPde j i.toNat

/-- Stores in other frames keep the directories. -/
theorem Laid.of_same {k : ℕ} (h : Laid host n k m) (hk : k + 2 ≤ n)
    (hsame : ∀ j, n < j + 3 + k → j + 1 < n → SameFrame m m' (host j)) :
    Laid host n k m' := by
  constructor
  · intro j hj
    rw [(hsame (n - 2) (by omega) (by omega)).slotWord]
    exact h.entries j hj
  · intro j hj i
    rw [(hsame (n - 3 - j) (by omega) (by omega)).slotWord]
    exact h.directories j hj i

/-- One more directory, once it is filled and referenced. -/
theorem Laid.succ {k : ℕ} (h : Laid host n k m) (hn : k + 3 ≤ n) (hk : k < 512)
    (hinj : ∀ i < n, ∀ j < n, host i = host j → i = j)
    (hm : Filled m m' (host (n - 3 - k)) (identityPde k) 512) :
    Laid host n (k + 1) (writeQword m' (slotAddress (host (n - 2)) (BitVec.ofNat 9 k))
      (tableEntry (guestPage (n - 3 - k)))) := by
  have hindex : (BitVec.ofNat 9 k).toNat = k := by
    rw [BitVec.toNat_ofNat]
    omega
  have hother : ∀ j < n, j ≠ n - 3 - k → ∀ i, slotWord m' (host j) i = slotWord m (host j) i := by
    intro j hj hne i
    refine SameFrame.slotWord (fun a ha => hm.2 a fun hin => hne ?_) i
    exact hinj j hj _ (by omega) (InFrame.eq ha hin)
  constructor
  · intro j hj
    rw [slotWord_writeSlot]
    by_cases hlast : j.toNat = k
    · have hslot : j = BitVec.ofNat 9 k := BitVec.eq_of_toNat_eq (hlast.trans hindex.symm)
      rw [if_pos ⟨rfl, hslot⟩, hlast]
    · have hslot : ¬(host (n - 2) = host (n - 2) ∧ j = BitVec.ofNat 9 k) := fun h => hlast (by
        rw [h.2, hindex])
      rw [if_neg hslot, hother (n - 2) (by omega) (by omega)]
      exact h.entries j (by omega)
  · intro j hj i
    have hne : ¬(host (n - 3 - j) = host (n - 2) ∧ i = BitVec.ofNat 9 k) := fun h => by
      have hpages := hinj _ (by omega) _ (by omega) h.1
      omega
    rw [slotWord_writeSlot, if_neg hne]
    by_cases hlast : j = k
    · rw [hlast]
      exact hm.1 i i.isLt
    · rw [hother (n - 3 - j) (by omega) (by omega)]
      exact h.directories j (by omega) i

/-- The setup after `k` rounds of its loop. -/
structure Rounds (s : Hv) (vm : Word) (n : ℕ) (host : ℕ → Frame) (k : ℕ) (t : Hv) : Prop where
  room : k + 2 ≤ n
  state : t = identityState s vm t.memory (k + 2)
  writes : WritesWithin host {j | n ≤ j + (k + 2) ∧ j < n} s.memory t.memory
  laid : Laid host n k t.memory

/-- The setup stopped because the pages of the guest ran out. -/
structure RanOut (s : Hv) (vm : Word) (n : ℕ) (host : ℕ → Frame) (e : Fault) (t : Hv) : Prop where
  small : n < 514
  panics : ∃ message, e = .panic message
  state : ∃ used, t = identityState s vm t.memory used
  writes : WritesWithin host {j | j < n} s.memory t.memory

theorem Rounds.guestMapped {k : ℕ} {t : Hv} (h : Rounds s vm n host k t)
    (hs : GuestMapped s vm n host) : GuestMapped t vm n host := by
  rw [h.state]
  exact guestMapped_identityState hs (h.writes.mono fun j hj => hj.2) _

/-- What one round does. -/
theorem setupPageDirectory_spec (hs : GuestMapped s vm n host) {k : ℕ} {t : Hv}
    (hk : k < 512) (h : Rounds s vm n host k t) :
    Ensures (setupPageDirectory vm (guestPage (n - 2))
        (p2vIdentityMap (frameAddress (host (n - 2)))) k) t
      (fun _ t' => Rounds s vm n host (k + 1) t') (RanOut s vm n host) := by
  have hroom := h.room
  have hwrites : WritesWithin host {j | j < n} s.memory t.memory := h.writes.mono fun j hj => hj.2
  rw [setupPageDirectory, ensures_bind]
  by_cases hlast : n = k + 2
  · -- the next directory would lie below page zero
    have hbelow : guestPage (n - 2) - (BitVec.ofNat 64 k + 1) * pageSize = -pageSize := by
      rw [hlast, Nat.add_sub_cancel]
      exact guestPage_sub_succ k
    obtain ⟨message, hstops⟩ := takeSetupPage_below hs (by omega) hwrites (k + 2)
    rw [← h.state] at hstops
    rw [hbelow]
    exact Ensures.error hstops ⟨by omega, ⟨message, rfl⟩, ⟨_, rfl⟩, hwrites⟩
  · have hpage : guestPage (n - 2) - (BitVec.ofNat 64 k + 1) * pageSize = guestPage (n - 3 - k) := by
      have hsum : n - 2 = n - 3 - k + (k + 1) := by omega
      have hsub := guestPage_sub (n - 3 - k) (k + 1)
      rwa [← hsum, BitVec.ofNat_add] at hsub
    have htaken := takeSetupPage_ok hs hwrites (j := n - 3 - k) (by omega) (k + 2)
    rw [← h.state] at htaken
    rw [hpage]
    refine Ensures.ok htaken ?_
    -- the number of rounds stays a variable, so that the loop is not unfolded
    generalize hentries : pageTableEntries = entries
    rw [ensures_bind]
    refine (fillTable_spec (E := RanOut s vm n host) _ (host (n - 3 - k)) (identityPde k)
      hentries.ge).mono ?_ ?_
    · intro _ t' ht'
      obtain ⟨hsame, hfilled⟩ := ht'
      rw [← hentries] at hfilled
      have hfilledWrites : WritesWithin host {j | n ≤ j + (k + 3) ∧ j < n} t.memory t'.memory :=
        fun a ha => hfilled.2 a (ha (n - 3 - k) ⟨by omega, by omega⟩)
      have hstored : WritesWithin host {j | n ≤ j + (k + 3) ∧ j < n} t'.memory
          (writeQword t'.memory (slotAddress (host (n - 2)) (BitVec.ofNat 9 k))
            (tableEntry (guestPage (n - 3 - k)))) := by
        have hlast : n - 2 ∈ {j | n ≤ j + (k + 3) ∧ j < n} := ⟨by omega, by omega⟩
        exact WritesWithin.writeSlot hlast _ _
      rw [ensures_writeElement, element_ofNat _ hk]
      refine ⟨by omega, ?_, ?_, h.laid.succ (by omega) hk hs.injective hfilled⟩
      · rw [hsame]
        rfl
      · have hbefore : WritesWithin host {j | n ≤ j + (k + 3) ∧ j < n} s.memory t.memory :=
          h.writes.mono fun j hj => ⟨by have := hj.1; omega, hj.2⟩
        exact (hbefore.trans hfilledWrites).trans hstored
    · exact fun e t' he => he

/-! ## The whole setup -/

/-- The tables as the setup leaves them. -/
structure IdentityTables (host : ℕ → Frame) (n : ℕ) (m : Memory) : Prop where
  top : ∀ i : Slot, slotWord m (host (n - 1)) i =
    if i = 0 then tableEntry (guestPage (n - 2)) else 0
  laid : Laid host n 512 m

/-- The state after the setup. -/
structure IdentitySetUp (s : Hv) (vm : Word) (n : ℕ) (host : ℕ → Frame) (t : Hv) : Prop where
  room : 514 ≤ n
  state : t = identityState s vm t.memory 514
  writes : WritesWithin host {j | n ≤ j + 514 ∧ j < n} s.memory t.memory
  tables : IdentityTables host n t.memory

theorem IdentitySetUp.guestMapped {t : Hv} (h : IdentitySetUp s vm n host t)
    (hs : GuestMapped s vm n host) : GuestMapped t vm n host := by
  rw [h.state]
  exact guestMapped_identityState hs (h.writes.mono fun j hj => hj.2) _

/-- The last stores, in the PML4. -/
theorem pml4_spec (hs : GuestMapped s vm n host) {t : Hv} (h : Rounds s vm n host 512 t)
    {E : Fault → Hv → Prop} :
    Ensures (do
        memset (p2vIdentityMap (frameAddress (host (n - 1)))) 0 pageSize.toNat
        writeElement (p2vIdentityMap (frameAddress (host (n - 1)))) (linearAddressGetPml4 0)
          (tableEntry (guestPage (n - 2)))) t
      (fun _ t' => IdentitySetUp s vm n host t') E := by
  have hroom := h.room
  have hlast : n - 1 ∈ {j | n ≤ j + 514 ∧ j < n} := ⟨by omega, by omega⟩
  have hindex : linearAddressGetPml4 0 = (0 : Slot).setWidth 64 := rfl
  have hsize : pageSize.toNat = 4096 := rfl
  rw [ensures_bind, ensures_memset, ensures_writeElement, v2p_p2v, hindex, element_slot, hsize]
  have hfilled : WritesWithin host {j | n ≤ j + 514 ∧ j < n} t.memory
      (fill t.memory (frameAddress (host (n - 1))) 0 4096) := WritesWithin.fillPage hlast 0
  refine ⟨hroom, ?_, ?_, ?_, ?_⟩
  · rw [h.state]
    rfl
  · exact (h.writes.trans hfilled).trans (WritesWithin.writeSlot hlast _ _)
  · intro i
    rw [slotWord_writeSlot]
    by_cases hi : i = 0
    · rw [if_pos ⟨rfl, hi⟩, if_pos hi]
    · rw [if_neg (fun h => hi h.2), if_neg hi]
      exact (zeroFrame_fill t.memory (host (n - 1))).slotWord i
  · refine h.laid.of_same hroom fun j _ hj => ?_
    have hne : host j ≠ host (n - 1) := fun he => by
      have hpages := hs.injective j (by omega) (n - 1) (by omega) he
      omega
    exact (sameFrame_fill hne).trans (sameFrame_writeSlot hne)

/-- The setup of a machine none of whose pages is used. -/
theorem vmGuestPagingSetupIdentity_spec (hs : GuestMapped s vm n host) (hpos : 1 ≤ n)
    (hsize : (s.vmAt vm).guestPhysicalPages = BitVec.ofNat 64 n)
    (hunused : (s.vmAt vm).guestPhysicalPagesUsedByInitialSetup = 0) :
    Ensures (vmGuestPagingSetupIdentity vm) s
      (fun cr3 t => cr3 = guestPage (n - 1) ∧ IdentitySetUp s vm n host t)
      (RanOut s vm n host) := by
  have hle := guestMapped_le hs
  have hnonzero : ¬BitVec.ofNat 64 n = 0 := fun h => by
    have hvalue := congrArg BitVec.toNat h
    have hzero : (0 : Word).toNat = 0 := rfl
    rw [BitVec.toNat_ofNat, hzero] at hvalue
    omega
  have hpml4 : (BitVec.ofNat 64 n - 1) * pageSize = guestPage (n - 1) := by
    have hsucc : BitVec.ofNat 64 n = BitVec.ofNat 64 (n - 1) + 1 := by
      conv_lhs => rw [← Nat.sub_add_cancel hpos, BitVec.ofNat_add]
      rfl
    rw [hsucc, BitVec.add_sub_cancel, guestPage]
  have hstart : s = identityState s vm s.memory 0 := by
    have hrecord : { s.vmAt vm with guestPhysicalPagesUsedByInitialSetup := BitVec.ofNat 64 0 } =
        s.vmAt vm := by
      rw [show BitVec.ofNat 64 0 = (s.vmAt vm).guestPhysicalPagesUsedByInitialSetup from
        hunused.symm]
    rw [identityState, hrecord, settingUp_self]
  have hfirst := takeSetupPage_ok hs (WritesWithin.refl host _ _) (j := n - 1) (by omega) 0
  rw [← hstart] at hfirst
  rw [vmGuestPagingSetupIdentity, ensures_bind, ensures_get, hsize, hunused, if_neg hnonzero,
    if_neg (not_not.mpr rfl), hpml4, ensures_bind]
  refine Ensures.ok hfirst ?_
  rw [ensures_bind]
  by_cases hone : n = 1
  · -- the PDPT would already lie below page zero
    obtain ⟨message, hstops⟩ := takeSetupPage_below hs (by omega) (WritesWithin.refl host _ _) 1
    have hbelow : guestPage (n - 1) - pageSize = -pageSize := by
      rw [hone]
      rfl
    rw [hbelow]
    exact Ensures.error hstops ⟨by omega, ⟨message, rfl⟩, ⟨_, rfl⟩, WritesWithin.refl host _ _⟩
  · have hpdpt : guestPage (n - 1) - pageSize = guestPage (n - 2) := by
      have hsub := guestPage_sub (n - 2) 1
      have hsum : n - 2 + 1 = n - 1 := by omega
      have hmul : BitVec.ofNat 64 1 * pageSize = pageSize := BitVec.one_mul pageSize
      rwa [hsum, hmul] at hsub
    have hsecond := takeSetupPage_ok hs (WritesWithin.refl host _ _) (j := n - 2) (by omega) 1
    rw [hpdpt]
    refine Ensures.ok hsecond ?_
    generalize hentries : pageTableEntries = entries
    have hcount : entries = 512 := hentries.symm
    rw [ensures_bind]
    refine Ensures.mono (ensures_forRange (E := RanOut s vm n host)
      (fun k t => Rounds s vm n host k t) ?_ ?_) ?_ ?_
    · exact ⟨by omega, rfl, WritesWithin.refl host _ _,
        fun j hj => absurd hj (Nat.not_lt_zero _), fun j hj => absurd hj (Nat.not_lt_zero _)⟩
    · intro k t hk ht
      exact setupPageDirectory_spec hs (by omega) ht
    · intro _ t ht
      rw [hcount] at ht
      have hdone := pml4_spec hs ht (E := RanOut s vm n host)
      rw [ensures_bind] at hdone
      rw [ensures_bind]
      refine hdone.mono ?_ ?_
      · intro _ t' ht'
        rw [ensures_bind]
        exact ht'.mono (fun _ _ h => ⟨rfl, h⟩) fun _ _ he => he
      · exact fun e t' he => he
    · exact fun e t' he => he

/-! ## Reading the tables -/

/-- The frame of a guest page seen as a table address. -/
theorem guestPage_and_address {j : ℕ} (hj : j < 2 ^ 36) :
    guestPage j &&& ptePhysicalAddressPage = guestPage j := by
  have hvalue := toNat_guestPage hj
  apply BitVec.eq_of_toNat_eq
  rw [table_toNat, ArchitecturalWalk.entryAddress]
  omega

theorem tableEntry_present (gpa : Word) : ¬tableEntry gpa &&& ptePresent = 0 := by
  refine present ?_
  simp only [tableEntry, BitVec.getLsbD_or, show ptePresent.getLsbD 0 = true by decide, Bool.true_or]

theorem tableEntry_small (gpa : Word) : ¬tableEntry gpa &&& pdePageSize ≠ 0 := by
  refine small ?_
  simp only [tableEntry, BitVec.getLsbD_or, BitVec.getLsbD_and,
    show ptePresent.getLsbD 7 = false by decide, show pteReadWrite.getLsbD 7 = false by decide,
    show ptePhysicalAddressPage.getLsbD 7 = false by decide, Bool.or_false, Bool.and_false]

theorem tableEntry_address {j : ℕ} (hj : j < 2 ^ 36) :
    tableEntry (guestPage j) &&& ptePhysicalAddressPage = guestPage j := by
  have hflags : (ptePresent ||| pteReadWrite) &&& ptePhysicalAddressPage = 0#64 := by decide
  rw [tableEntry, BitVec.and_comm, BitVec.and_or_distrib_left, BitVec.and_comm, hflags,
    guestPage_and_address hj, BitVec.and_comm, guestPage_and_address hj, BitVec.zero_or]

theorem identityPde_present (j i : ℕ) : ¬identityPde j i &&& ptePresent = 0 := by
  refine present ?_
  simp only [identityPde, BitVec.getLsbD_or, show ptePresent.getLsbD 0 = true by decide,
    Bool.true_or]

theorem identityPde_large (j i : ℕ) : identityPde j i &&& pdePageSize ≠ 0 := by
  refine large ?_
  simp only [identityPde, BitVec.getLsbD_or, show pdePageSize.getLsbD 7 = true by decide,
    Bool.or_true, Bool.true_or]

/-- The large page of an address below 2^39 is the one that contains it. -/
theorem identityPde_translates {la : Word} (hla : la.toNat < 2 ^ 39) :
    (identityPde (la.toNat / 2 ^ 30 % 512) (la.toNat / 2 ^ 21 % 512) &&& pdePhysicalAddressPage) |||
      (la &&& (linearAddressTableMask ||| linearAddressOffsetMask)) = la := by
  have hindex : BitVec.ofNat 64 (la.toNat / 2 ^ 30 % 512) * BitVec.ofNat 64 pageTableEntries +
      BitVec.ofNat 64 (la.toNat / 2 ^ 21 % 512) = la >>> 21 := by
    have hentries : pageTableEntries = 512 := rfl
    apply BitVec.eq_of_toNat_eq
    rw [BitVec.toNat_add, BitVec.toNat_mul, BitVec.toNat_ofNat, BitVec.toNat_ofNat,
      BitVec.toNat_ofNat, hentries, BitVec.toNat_ushiftRight, Nat.shiftRight_eq_div_pow]
    omega
  have hflags : (ptePresent ||| pteReadWrite ||| pdePageSize) &&& pdePhysicalAddressPage = 0#64 := by
    decide
  have haddress : identityPde (la.toNat / 2 ^ 30 % 512) (la.toNat / 2 ^ 21 % 512) &&&
      pdePhysicalAddressPage = (la >>> 21 <<< 21) &&& pdePhysicalAddressPage := by
    rw [identityPde, hindex, BitVec.and_comm, BitVec.and_or_distrib_left, BitVec.and_comm, hflags,
      BitVec.zero_or, BitVec.and_comm, BitVec.and_assoc, BitVec.and_self]
    rfl
  have hmask : pdePhysicalAddressPage = fieldMask 21 31 := by decide
  have hlow : linearAddressTableMask ||| linearAddressOffsetMask = fieldMask 0 21 := by decide
  rw [haddress, hmask, hlow]
  apply BitVec.eq_of_getLsbD_eq
  intro i hi
  have hhigh : 39 ≤ i → la.getLsbD i = false := getLsbD_of_toNat_lt hla
  simp only [BitVec.getLsbD_or, BitVec.getLsbD_and, BitVec.getLsbD_shiftLeft,
    BitVec.getLsbD_ushiftRight, getLsbD_fieldMask]
  grind

/-- An entry of a table in a guest page, as the walker reads it. -/
theorem element_guestPage (h : GuestMapped s vm n host) {j : ℕ} (hj : j < n) (i : Slot) :
    ((vmxEptGetHostPhysicalAddress s.memory (s.vmAt vm) (guestPage j)).map fun hostpa =>
      readQword s.memory (v2pIdentityMap (p2vIdentityMap hostpa + i.setWidth 64 * 8))) =
        some (slotWord s.memory (host j) i) := by
  rw [walk_guestPage h hj, Option.map_some, element_slot]
  rfl

/-- Field of an address as an index of a slot. -/
theorem toNat_slot (la : Word) (k : ℕ) : (la.extractLsb' k 9).toNat = la.toNat / 2 ^ k % 512 := by
  rw [BitVec.extractLsb'_toNat, Nat.shiftRight_eq_div_pow]

/-- Below 2^39 the walker reads the identity. -/
theorem walk_identity (h : GuestMapped s vm n host) (hn : 514 ≤ n)
    (ht : IdentityTables host n s.memory) {la : Word} (hla : la.toNat < 2 ^ 39) :
    vmGuestPagingGetGuestPhysicalAddress s.memory (s.vmAt vm) (guestPage (n - 1)) la = some la := by
  have hle := guestMapped_le h
  have hcr3 : guestPage (n - 1) &&& pageMask = guestPage (n - 1) := and_pageMask (by
    rw [toNat_guestPage (by omega)]
    omega)
  have hpml4 : la.extractLsb' 39 9 = 0 := by
    apply BitVec.eq_of_toNat_eq
    rw [toNat_slot, Nat.div_eq_of_lt hla]
    rfl
  have hpdpt := toNat_slot la 30
  have hpd := toNat_slot la 21
  have htop : slotWord s.memory (host (n - 1)) (la.extractLsb' 39 9) =
      tableEntry (guestPage (n - 2)) := by
    rw [ht.top, if_pos hpml4]
  have hmiddle := ht.laid.entries (la.extractLsb' 30 9) (by omega)
  have hlow := ht.laid.directories (la.extractLsb' 30 9).toNat (by omega) (la.extractLsb' 21 9)
  simp only [vmGuestPagingGetGuestPhysicalAddress, hcr3, linearAddressGetPml4_eq,
    linearAddressGetDirectoryPtr_eq, linearAddressGetDirectory_eq]
  rw [element_guestPage h (by omega), htop, Option.bind_eq_bind, Option.bind_some,
    if_neg (tableEntry_present _), tableEntry_address (by omega), element_guestPage h (by omega),
    hmiddle, Option.bind_some, if_neg (tableEntry_present _), if_neg (tableEntry_small _),
    tableEntry_address (by omega), element_guestPage h (by omega), hlow, Option.bind_some,
    if_neg (identityPde_present _ _), if_pos (identityPde_large _ _), hpdpt, hpd,
    identityPde_translates hla]

/-- From 2^39 up to 2^48 - 1 the walker finds nothing. -/
theorem walk_beyond (h : GuestMapped s vm n host) (hn : 514 ≤ n)
    (ht : IdentityTables host n s.memory) {la : Word} (hla : 2 ^ 39 ≤ la.toNat)
    (hlimit : la.toNat < 2 ^ 48) :
    vmGuestPagingGetGuestPhysicalAddress s.memory (s.vmAt vm) (guestPage (n - 1)) la = none := by
  have hle := guestMapped_le h
  have hcr3 : guestPage (n - 1) &&& pageMask = guestPage (n - 1) := and_pageMask (by
    rw [toNat_guestPage (by omega)]
    omega)
  have hpml4 : ¬la.extractLsb' 39 9 = 0 := fun he => by
    have hvalue := congrArg BitVec.toNat he
    have hzero : (0 : Slot).toNat = 0 := rfl
    rw [toNat_slot, hzero] at hvalue
    omega
  have htop : slotWord s.memory (host (n - 1)) (la.extractLsb' 39 9) = 0 := by
    rw [ht.top, if_neg hpml4]
  simp only [vmGuestPagingGetGuestPhysicalAddress, hcr3, linearAddressGetPml4_eq]
  have habsent : (0 : Word) &&& ptePresent = 0 := by decide
  rw [element_guestPage h (by omega), htop, Option.bind_eq_bind, Option.bind_some, if_pos habsent]

/-! ## Machines fresh from the allocation -/

/-- The identity tables of a machine fresh from the allocation. With 514 pages or
more the setup fills the last 514 of them, and the walker reads the identity
below 2^39 and nothing from there up to 2^48 - 1. With fewer pages it panics, and
only the guest memory has changed. -/
theorem vmGuestPagingSetupIdentity_identity {pages : Word} (h : Allocated hw s vm pages)
    (hpos : 1 ≤ pages.toNat) (hpages : pages.toNat ≤ 512 ^ 4) :
    (514 ≤ pages.toNat → ∃ s', vmGuestPagingSetupIdentity vm s = .ok ((pages - 1) * pageSize) s' ∧
      s' = settingUp s vm s'.memory
        { s.vmAt vm with guestPhysicalPagesUsedByInitialSetup := 514 } ∧
      ChangesBehind s vm {j | pages.toNat - 514 ≤ j ∧ j < pages.toNat} s'.memory ∧
      ∀ la, (la.toNat < 2 ^ 39 → vmGuestPagingGetGuestPhysicalAddress s'.memory (s'.vmAt vm)
          ((pages - 1) * pageSize) la = some la) ∧
        (2 ^ 39 ≤ la.toNat → la.toNat < 2 ^ 48 → vmGuestPagingGetGuestPhysicalAddress s'.memory
          (s'.vmAt vm) ((pages - 1) * pageSize) la = none)) ∧
    (pages.toNat ≤ 513 → ∃ message s', vmGuestPagingSetupIdentity vm s =
        .error (.panic message) s' ∧
      (∃ used, s' = settingUp s vm s'.memory
        { s.vmAt vm with guestPhysicalPagesUsedByInitialSetup := used }) ∧
      ChangesBehind s vm {j | j < pages.toNat} s'.memory) := by
  obtain ⟨host, hmapped⟩ := h.guest.mapped
  have hsize : (s.vmAt vm).guestPhysicalPages = BitVec.ofNat 64 pages.toNat := by
    rw [h.guest.size, BitVec.ofNat_toNat, BitVec.setWidth_eq]
  have hunused : (s.vmAt vm).guestPhysicalPagesUsedByInitialSetup = 0 := by
    obtain ⟨name, tracked, eptp, flags, hrecord⟩ := h.guest.record
    rw [hrecord]
    rfl
  have hcr3 : guestPage (pages.toNat - 1) = (pages - 1) * pageSize := by
    have hone : (1 : Word).toNat = 1 := rfl
    have hlast : BitVec.ofNat 64 (pages.toNat - 1) = pages - 1 := by
      apply BitVec.eq_of_toNat_eq
      rw [BitVec.toNat_ofNat, BitVec.toNat_sub, hone]
      omega
    rw [guestPage, hlast]
  have hspec := vmGuestPagingSetupIdentity_spec hmapped hpos hsize hunused
  cases hrun : vmGuestPagingSetupIdentity vm s with
  | ok cr3 s' =>
    obtain ⟨hvalue, hdone⟩ := hspec.of_ok hrun
    have hroom := hdone.room
    have hmapped' := hdone.guestMapped hmapped
    refine ⟨fun _ => ⟨s', ?_, hdone.state, ?_, fun la => ⟨fun hla => ?_, fun hla hlimit => ?_⟩⟩,
      fun hsmall => absurd hroom (by omega)⟩
    · rw [hvalue, hcr3]
    · have hbehind := hdone.writes.changesBehind hmapped fun j hj => hj.2
      intro a ha
      obtain ⟨gpa, hgpa, hwalk⟩ := hbehind a ha
      exact ⟨gpa, ⟨by have := hgpa.1; omega, hgpa.2⟩, hwalk⟩
    · rw [← hcr3]
      exact walk_identity hmapped' hroom hdone.tables hla
    · rw [← hcr3]
      exact walk_beyond hmapped' hroom hdone.tables hla hlimit
  | error e s' =>
    have hran := hspec.of_error hrun
    have hsmall := hran.small
    obtain ⟨message, rfl⟩ := hran.panics
    refine ⟨fun hlarge => absurd hlarge (by omega), fun _ => ⟨message, s', rfl, ?_, ?_⟩⟩
    · obtain ⟨used, hstate⟩ := hran.state
      exact ⟨_, hstate⟩
    · exact hran.writes.changesBehind hmapped fun j hj => hj

/-- A guest memory of two pages has no room for the tables. -/
theorem vmGuestPagingSetupIdentity_identity_two_pages :
    ∃ s, Allocated obedientHardware s firstOfSixteen 2 ∧ ∃ message s',
      vmGuestPagingSetupIdentity firstOfSixteen s = .error (.panic message) s' := by
  obtain ⟨s, hs⟩ := exists_allocated_two
  obtain ⟨message, s', hrun, _⟩ :=
    (vmGuestPagingSetupIdentity_identity hs (by decide) (by decide)).2 (by decide)
  exact ⟨s, hs, message, s', hrun⟩

end Rkhv.GuestIdentity
