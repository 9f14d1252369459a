import Rkhv.Cr4Shadow

/-!
# Values of the guest's CR3

A MOV to CR3 may set bit 63 when the guest uses process-context identifiers; the
bit only asks to keep translations and is not part of the register. The
emulation stores the operand as it is, so that the register stays legal for an
entry exactly as long as no guest uses the bit.
-/

namespace Rkhv.Cr3Loads

open ByteMemory HostTypes HostState StateOutcome Vmcs VmxMsr VmxVmexit VmexitEffects VmexitFrame
open Cr4Shadow HostRuns

/-- Bits 62 to 52 of CR3, which are always reserved. -/
def cr3Reserved : Word := 0x7ff0000000000000

/-- Bit 63 of the operand of a MOV to CR3. -/
def cr3KeepTlb : Word := 0x8000000000000000

/-- `CR4_PCIDE` -/
def cr4Pcide : Word := 0x20000

/-- Operands of a MOV to CR3 that do not fault on bare hardware. -/
def LegalOperand (cpu : Cpu) (value : Word) : Prop :=
  value &&& cr3Reserved = 0 ∧
    (value &&& cr3KeepTlb ≠ 0 → currentField cpu vmcsGuestCr4 &&& cr4Pcide ≠ 0)

/-- CR3 values that a VM entry accepts. -/
def LegalCr3 (cr3 : Word) : Prop := cr3 &&& (cr3KeepTlb ||| cr3Reserved) = 0

instance (cr3 : Word) : Decidable (LegalCr3 cr3) := inferInstanceAs (Decidable (_ = _))

/-- What an exit for a MOV to or from CR3 did: the operand or the value that the
general register received next to the operand of the last load, and CR3 as it was
written to the VMCS. -/
inductive Cr3Exit where
  | load (operand written : Word)
  | store (last received written : Word)

/-- The exit left a legal CR3, and a MOV from CR3 gave the last operand without
bit 63. -/
def Cr3Exit.Ok : Cr3Exit → Prop
  | .load _ written => LegalCr3 written
  | .store last received written => LegalCr3 written ∧ received = last &&& ~~~cr3KeepTlb

/-- Whether the exit is that of a MOV from CR3. -/
def MovFromCr3 (cpu : Cpu) : Prop :=
  MovFromCr (currentField cpu vmcsExitReason) (currentField cpu vmcsExitQualification) ∧
    vmexitQualificationCrCrn (currentField cpu vmcsExitQualification) = 3

/-- Whether the exit is that of a MOV to CR3. -/
def MovToCr3 (cpu : Cpu) : Prop :=
  MovToCr (currentField cpu vmcsExitReason) (currentField cpu vmcsExitQualification) 3

instance (cpu : Cpu) : Decidable (MovToCr3 cpu) := inferInstanceAs (Decidable (MovToCr _ _ _))

/-- Runs of a guest from a legal CR3 on, with the operand of the last load and the
exits so far, newest first. What happens between these exits leaves CR3 alone. -/
inductive Cr3Run (hw : Hardware) : Hv → Word → List Cr3Exit → Prop where
  | start {s : Hv} (h : LegalCr3 (currentField s.cpu vmcsGuestCr3)) :
      Cr3Run hw s (currentField s.cpu vmcsGuestCr3) []
  | other {s t : Hv} {last : Word} {exits : List Cr3Exit} (h : Cr3Run hw s last exits)
      (ht : currentField t.cpu vmcsGuestCr3 = currentField s.cpu vmcsGuestCr3) :
      Cr3Run hw t last exits
  | load {s s' : Hv} {last vm : Word} {exits : List Cr3Exit} {reg reg' : VmxVmexitRegState}
      (h : Cr3Run hw s last exits) (hmov : MovToCr3 s.cpu)
      (hlegal : LegalOperand s.cpu (movRegister s.cpu s.cpu reg))
      (hrun : vmxVmexitHandler hw reg s = .ok (reg', vm) s') :
      Cr3Run hw s' (movRegister s.cpu s.cpu reg)
        (.load (movRegister s.cpu s.cpu reg) (currentField s'.cpu vmcsGuestCr3) :: exits)
  | store {s s' : Hv} {last vm : Word} {exits : List Cr3Exit} {reg reg' : VmxVmexitRegState}
      (h : Cr3Run hw s last exits) (hmov : MovFromCr3 s.cpu)
      (hrun : vmxVmexitHandler hw reg s = .ok (reg', vm) s') :
      Cr3Run hw s' last
        (.store last (movRegister s.cpu s'.cpu reg') (currentField s'.cpu vmcsGuestCr3) :: exits)

/-! ## One exit -/

/-- A MOV to CR3 stores its operand. -/
theorem vmxVmexitHandler_loads {hw : Hardware} {s s' : Hv} {reg reg' : VmxVmexitRegState}
    {vm : Word} (h : vmxVmexitHandler hw reg s = .ok (reg', vm) s') (hmov : MovToCr3 s.cpu) :
    currentField s'.cpu vmcsGuestCr3 = movRegister s.cpu s.cpu reg := by
  obtain ⟨vmState, vmState', t, t', hcall, hcall', hcall'', _, _⟩ := vmxVmexitHandler_stages h
  have hread := readVmState_returned hcall
  have hhandled := handleExit_returned hcall'
  have hwritten := writeVmState_returned hcall''
  have hcr3 := hhandled.cr3
  have hmov' : MovToCr _ _ 3 := hmov
  rw [if_pos hmov'] at hcr3
  have hvalue : (possibleGpr vmState)[crGpr (currentField s.cpu vmcsExitQualification)] =
      movRegister s.cpu s.cpu reg := by
    rw [movRegister, ← hread.rsp, ← hread.regState]
    rfl
  exact hwritten.cr3.trans (hcr3.trans hvalue)

/-- A MOV from CR3 keeps CR3 and gives it to the general register. -/
theorem vmxVmexitHandler_stores {hw : Hardware} {s s' : Hv} {reg reg' : VmxVmexitRegState}
    {vm : Word} (h : vmxVmexitHandler hw reg s = .ok (reg', vm) s') (hmov : MovFromCr3 s.cpu) :
    currentField s'.cpu vmcsGuestCr3 = currentField s.cpu vmcsGuestCr3 ∧
      movRegister s.cpu s'.cpu reg' = currentField s.cpu vmcsGuestCr3 := by
  obtain ⟨vmState, vmState', t, t', hcall, hcall', hcall'', hreg, _⟩ := vmxVmexitHandler_stages h
  have hread := readVmState_returned hcall
  have hhandled := handleExit_returned hcall'
  have hwritten := writeVmState_returned hcall''
  have hfrom : ¬MovToCr (currentField s.cpu vmcsExitReason)
      (currentField s.cpu vmcsExitQualification) 3 := fun hto => by
    have htype := hto.2.1
    rw [hmov.1.2] at htype
    exact absurd htype (by decide)
  have hcr3 := hhandled.cr3
  rw [if_neg hfrom] at hcr3
  have hreceived := hhandled.movFromCr hmov.1
  rw [← hwritten.rsp, ← hreg, hread.cr3] at hreceived
  exact ⟨hwritten.cr3.trans (hcr3.trans hread.cr3), hreceived⟩

/-! ## Runs -/

/-- CR3 always is the operand of the last load. -/
theorem Cr3Run.current {hw : Hardware} {s : Hv} {last : Word} {exits : List Cr3Exit}
    (h : Cr3Run hw s last exits) : currentField s.cpu vmcsGuestCr3 = last := by
  induction h with
  | start _ => rfl
  | other _ ht ih => rw [ht, ih]
  | load _ hmov _ hrun _ => exact vmxVmexitHandler_loads hrun hmov
  | store _ hmov hrun ih => rw [(vmxVmexitHandler_stores hrun hmov).1, ih]

/-- A legal operand is a legal CR3 when it has bit 63 clear. -/
theorem legalCr3_iff {cpu : Cpu} {value : Word} (h : LegalOperand cpu value) :
    LegalCr3 value ↔ value &&& cr3KeepTlb = 0 := by
  have hsplit : value &&& (cr3KeepTlb ||| cr3Reserved) = value &&& cr3KeepTlb := by
    rw [BitVec.and_or_distrib_left, h.1]
    exact BitVec.or_zero
  rw [LegalCr3, hsplit]

/-- A legal CR3 has no bit 63 to remove. -/
theorem LegalCr3.and_not {cr3 : Word} (h : LegalCr3 cr3) : cr3 &&& ~~~cr3KeepTlb = cr3 := by
  apply BitVec.eq_of_getLsbD_eq
  intro i hi
  have hbit := congrArg (fun w : Word => w.getLsbD i) h
  simp only [BitVec.getLsbD_and, BitVec.getLsbD_or, BitVec.ofNat_eq_ofNat, BitVec.getLsbD_zero]
    at hbit
  rw [BitVec.getLsbD_and, BitVec.getLsbD_not, decide_eq_true hi]
  revert hbit
  cases cr3.getLsbD i <;> cases cr3KeepTlb.getLsbD i <;> cases cr3Reserved.getLsbD i <;> decide

/-- No operand of the exits has bit 63 set. -/
def NoKeepTlb (exits : List Cr3Exit) : Prop :=
  ∀ operand written, .load operand written ∈ exits → operand &&& cr3KeepTlb = 0

theorem NoKeepTlb.tail {e : Cr3Exit} {exits : List Cr3Exit} (h : NoKeepTlb (e :: exits)) :
    NoKeepTlb exits := fun operand written hmem => h operand written (List.mem_cons_of_mem e hmem)

/-- Without bit 63 in the operands the last of them is a legal CR3. -/
theorem Cr3Run.legalCr3 {hw : Hardware} {s : Hv} {last : Word} {exits : List Cr3Exit}
    (h : Cr3Run hw s last exits) (hno : NoKeepTlb exits) : LegalCr3 last := by
  induction h with
  | start hlegal => exact hlegal
  | other _ _ ih => exact ih hno
  | load _ _ hlegal _ _ => exact (legalCr3_iff hlegal).mpr (hno _ _ List.mem_cons_self)
  | store _ _ _ ih => exact ih hno.tail

/-- In every run each exit leaves a legal CR3 and each MOV from CR3 gives the last
operand without bit 63, if and only if no operand of the run has bit 63 set. -/
theorem cr3_stays_legal_iff {hw : Hardware} {s : Hv} {last : Word} {exits : List Cr3Exit}
    (h : Cr3Run hw s last exits) : (∀ e ∈ exits, e.Ok) ↔ NoKeepTlb exits := by
  induction h with
  | start _ =>
    constructor
    · exact fun _ _ _ hmem => absurd hmem List.not_mem_nil
    · exact fun _ _ hmem => absurd hmem List.not_mem_nil
  | other _ _ ih => exact ih
  | load hrun₀ hmov hlegal hrun ih =>
    have hwritten := vmxVmexitHandler_loads hrun hmov
    constructor
    · intro hok operand written hmem
      cases List.mem_cons.mp hmem with
      | inl hnewest =>
        cases hnewest
        have hnew : LegalCr3 _ := hok _ List.mem_cons_self
        rw [hwritten] at hnew
        exact (legalCr3_iff hlegal).mp hnew
      | inr hearlier =>
        exact ih.mp (fun e he => hok e (List.mem_cons_of_mem _ he)) operand written hearlier
    · intro hno e he
      cases List.mem_cons.mp he with
      | inl hnewest =>
        rw [hnewest, Cr3Exit.Ok, hwritten]
        exact (legalCr3_iff hlegal).mpr (hno _ _ List.mem_cons_self)
      | inr hearlier => exact ih.mpr hno.tail e hearlier
  | store hrun₀ hmov hrun ih =>
    obtain ⟨hkept, hreceived⟩ := vmxVmexitHandler_stores hrun hmov
    have hcurrent := hrun₀.current
    constructor
    · intro hok operand written hmem
      cases List.mem_cons.mp hmem with
      | inl hnewest => cases hnewest
      | inr hearlier =>
        exact ih.mp (fun e he => hok e (List.mem_cons_of_mem _ he)) operand written hearlier
    · intro hno e he
      cases List.mem_cons.mp he with
      | inl hnewest =>
        have hlegal := hrun₀.legalCr3 hno.tail
        rw [hnewest, Cr3Exit.Ok, hkept, hreceived, hcurrent]
        exact ⟨hlegal, hlegal.and_not.symm⟩
      | inr hearlier => exact ih.mpr hno.tail e hearlier

/-! ## A guest with process-context identifiers -/

/-- Fields of an exit for a MOV from RAX to CR3 of a guest with a given CR4. -/
def loadCr3Exit (cr4 field : Word) : Word :=
  if field = vmcsExitReason then vmexitReasonCrAccesses
  else if field = vmcsExitQualification then 3
  else if field = vmcsVmExitInstructionLength then 3
  else if field = vmcsGuestCr4 then cr4
  else 0

/-- The host of such a guest. -/
def loadCr3Host (cr4 : Word) : Hv := exitingHost (loadCr3Exit cr4)

/-- The guest's registers for a load of a value. -/
def loadCr3Registers (value : Word) : VmxVmexitRegState :=
  { (default : VmxVmexitRegState) with rax := value }

/-- A legal load that is handled is a run. -/
theorem exists_run_loading {cr4 value : Word} (hmov : MovToCr3 (loadCr3Host cr4).cpu)
    (hstart : LegalCr3 (currentField (loadCr3Host cr4).cpu vmcsGuestCr3))
    (hvalue : movRegister (loadCr3Host cr4).cpu (loadCr3Host cr4).cpu (loadCr3Registers value) = value)
    (hlegal : LegalOperand (loadCr3Host cr4).cpu value)
    (hreturned : (match vmxVmexitHandler obedientHardware (loadCr3Registers value) (loadCr3Host cr4)
      with
      | .ok _ _ => true
      | .error _ _ => false) = true) :
    ∃ s, Cr3Run obedientHardware s value [.load value value] := by
  cases hrun : vmxVmexitHandler obedientHardware (loadCr3Registers value) (loadCr3Host cr4) with
  | ok result s' =>
    have hwritten := vmxVmexitHandler_loads hrun hmov
    have hload := Cr3Run.load (.start hstart) hmov (by rw [hvalue]; exact hlegal) hrun
    rw [hwritten, hvalue] at hload
    exact ⟨s', hload⟩
  | error _ _ =>
    rw [hrun] at hreturned
    cases hreturned

/-- A page table without an identifier keeps CR3 legal. -/
theorem cr3_stays_legal_iff_page_table :
    (∀ e ∈ [Cr3Exit.load 0x1000 0x1000], e.Ok) ↔ NoKeepTlb [Cr3Exit.load 0x1000 0x1000] := by
  have hlegal : LegalOperand (loadCr3Host 0).cpu 0x1000 :=
    ⟨by decide, fun h => absurd (by decide) h⟩
  obtain ⟨s, hrun⟩ := exists_run_loading (by decide +kernel) (by decide +kernel)
    (by decide +kernel) hlegal (by decide +kernel)
  exact cr3_stays_legal_iff hrun

/-- A guest with process-context identifiers that asks to keep the translations
gets a CR3 that no VM entry accepts. -/
theorem cr3_stays_legal_keepTlb : ∃ s,
    Cr3Run obedientHardware s 0x8000000000001000
      [.load 0x8000000000001000 0x8000000000001000] ∧
    ¬(Cr3Exit.load 0x8000000000001000 0x8000000000001000).Ok := by
  have hlegal : LegalOperand (loadCr3Host cr4Pcide).cpu 0x8000000000001000 :=
    ⟨by decide, fun _ => by decide +kernel⟩
  obtain ⟨s, hrun⟩ := exists_run_loading (by decide +kernel) (by decide +kernel)
    (by decide +kernel) hlegal (by decide +kernel)
  refine ⟨s, hrun, ?_⟩
  rw [Cr3Exit.Ok]
  decide

end Rkhv.Cr3Loads
