import Rkhv.Amd64
import Rkhv.BootConfinement

/-!
# Entering the hypervisor

`chainload` switches to the page tables of `efi_main` while it runs: each of its
instructions is fetched through the tables in force, and so are its stores and its
stack. It is straight-line code in physical memory, below the end of the window.
Lengths of instructions are those of any encoding.
-/

namespace Rkhv.BootChainload

open ByteMemory WordFields HostTypes HostState StateOutcome BootPagePool ArchitecturalWalk RightsWalk
  NestedWalk BootPaging BootWindow BootLoading BootFiles BootSections BootAddressSpace BootHandover
  BootReservation BootConfinement

open Amd64 (Reg low32)

/-! ## The processor -/

/-- What `chainload` works on. -/
structure BootCpu where
  reg : Reg → Word
  rip : Word
  cr3 : Word
  ia32Efer : Word
  memory : Memory

/-- A walk through the tables in force; `IA32_EFER.NXE` is bit 11. -/
def walkUnder (cr3 ia32Efer : Word) (memory : Memory) (va : Word) : Except WalkFault Translation :=
  walkRights (guestFormat ⟨52, ia32Efer.getLsbD 11⟩) (hostRead memory) 4
    ⟨(frameAddress (frameOf cr3)).toNat, true, true⟩ va.toNat

def BootCpu.translate (c : BootCpu) (va : Word) : Option Translation :=
  (walkUnder c.cr3 c.ia32Efer c.memory va).toOption

/-- The instructions of `chainload`. -/
inductive BootInstr where
  | cli
  | mov (dst src : Reg)
  | movImm (dst : Reg) (imm : Word)
  | movCr3 (src : Reg)
  | jmp (target : Reg)
  /-- `mov [base], src` -/
  | store (base src : Reg)
  /-- `xor dst, dst` -/
  | zero (dst : Reg)
  | rdmsr
  | orEax (imm : Word)
  | wrmsr
  | push (src : Reg)
  | ret

/-- Store a quadword through the page tables. -/
def BootCpu.writeAt (c : BootCpu) (va value : Word) : Option BootCpu :=
  (c.translate va).bind fun t =>
    if t.writable then some { c with memory := writeQword c.memory (BitVec.ofNat 64 t.address) value }
    else none

/-- Give a register a value. -/
def BootCpu.set (c : BootCpu) (r : Reg) (v : Word) : BootCpu :=
  { c with reg := Function.update c.reg r v }

/-- What an instruction does after its fetch, with `rip` behind it. `IA32_EFER` is the
only MSR of the model. -/
def step : BootInstr → BootCpu → Option BootCpu
  | .cli, c => some c
  | .mov dst src, c => some (c.set dst (c.reg src))
  | .movImm dst imm, c => some (c.set dst imm)
  | .movCr3 src, c => some { c with cr3 := c.reg src }
  | .jmp target, c => some { c with rip := c.reg target }
  | .store base src, c => c.writeAt (c.reg base) (c.reg src)
  | .zero dst, c => some (c.set dst 0)
  | .rdmsr, c =>
    if low32 (c.reg .rcx) = 0xc0000080 then
      some ((c.set .rax (low32 c.ia32Efer)).set .rdx (c.ia32Efer >>> 32))
    else none
  | .orEax imm, c => some (c.set .rax (low32 (c.reg .rax) ||| imm))
  | .wrmsr, c =>
    if low32 (c.reg .rcx) = 0xc0000080 then
      some { c with ia32Efer := (c.reg .rdx).setWidth 32 ++ (c.reg .rax).setWidth 32 }
    else none
  | .push src, c => (c.writeAt (c.reg .rsp - 8) (c.reg src)).map fun c => c.set .rsp (c.reg .rsp - 8)
  | .ret, c => (c.translate (c.reg .rsp)).map fun t =>
    { c.set .rsp (c.reg .rsp + 8) with rip := readQword c.memory (BitVec.ofNat 64 t.address) }

/-- Straight-line code at a physical address. A fetch that does not lead there is a fault. -/
def run (length : BootInstr → ℕ) : ℕ → List BootInstr → BootCpu → Option BootCpu
  | _, [], c => some c
  | pa, i :: rest, c =>
    (c.translate c.rip).bind fun t =>
      if t.executable ∧ t.address = pa then
        (step i { c with rip := c.rip + BitVec.ofNat 64 (length i) }).bind
          (run length (pa + length i) rest)
      else none

/-- `chainload` up to `.new_physical_base`, given its address. -/
def chainloadSwitch (newPhysicalBase : Word) : List BootInstr := [
  .cli,
  .mov .rdi .rcx,
  .movCr3 .rdx,
  .movImm .rax (rkhvPhysicalMemoryBase + newPhysicalBase),
  .jmp .rax]

/-- The registers that are cleared, in order. -/
def clearedRegs : List Reg :=
  [.rax, .rbx, .rcx, .rdx, .rsi, .r8, .r9, .r10, .r11, .r12, .r13, .r14, .r15]

/-- `chainload` from `.new_physical_base` on. -/
def chainloadEnter : List BootInstr := [
  .zero .rax,
  .store .rdx .rax,
  .movCr3 .rdx,
  .movImm .rcx 0xc0000080,
  .rdmsr,
  .orEax (1 <<< 11),
  .wrmsr,
  .movImm .rsp 0xfffffffffffffff8,
  .mov .rbp .rsp,
  .movImm .rax 0xffffff0000000000,
  .push .rax] ++ clearedRegs.map .zero ++ [.ret]

/-- Bytes of code. -/
def sizeOf (length : BootInstr → ℕ) (code : List BootInstr) : ℕ := (code.map length).sum

/-- `chainload`, given the address of `.new_physical_base`. -/
def chainload (newPhysicalBase : Word) : List BootInstr :=
  chainloadSwitch newPhysicalBase ++ chainloadEnter

/-! ## Rules -/

section Rules

variable {length : BootInstr → ℕ} {lo hi pa : ℕ} {base : Word} {i : BootInstr} {code : List BootInstr}
  {c c' : BootCpu} {Q : BootCpu → Prop}

/-- The code runs without a fault. -/
def Runs (length : BootInstr → ℕ) (pa : ℕ) (code : List BootInstr) (c : BootCpu)
    (Q : BootCpu → Prop) : Prop := ∃ c', run length pa code c = some c' ∧ Q c'

/-- Tables map a range of physical memory to a base, for execution. -/
def Maps (lo hi : ℕ) (base cr3 ia32Efer : Word) (memory : Memory) : Prop :=
  ∀ a, lo ≤ a → a < hi → ∃ w,
    walkUnder cr3 ia32Efer memory (base + BitVec.ofNat 64 a) = .ok ⟨a, w, true⟩

/-- The processor is about to fetch code of the range. -/
structure Here (length : BootInstr → ℕ) (lo hi : ℕ) (base : Word) (pa : ℕ) (code : List BootInstr)
    (c : BootCpu) : Prop where
  rip : c.rip = base + BitVec.ofNat 64 pa
  from_lo : lo ≤ pa
  to_hi : pa + sizeOf length code ≤ hi

/-- One instruction that goes on to the next one. -/
theorem Runs.next (hlength : ∀ i, 0 < length i) (h : Here length lo hi base pa (i :: code) c)
    (hmaps : Maps lo hi base c.cr3 c.ia32Efer c.memory)
    (hstep : step i { c with rip := c.rip + BitVec.ofNat 64 (length i) } = some c')
    (hrip : c'.rip = c.rip + BitVec.ofNat 64 (length i))
    (hrest : Here length lo hi base (pa + length i) code c' → Runs length (pa + length i) code c' Q) :
    Runs length pa (i :: code) c Q := by
  have hroom := h.to_hi
  have hpos := hlength i
  rw [sizeOf, List.map_cons, List.sum_cons] at hroom
  obtain ⟨w, hwalk⟩ := hmaps pa h.from_lo (by omega)
  have hhere : Here length lo hi base (pa + length i) code c' := by
    refine ⟨?_, h.from_lo.trans (Nat.le_add_right _ _), ?_⟩
    · rw [hrip, h.rip, BitVec.add_assoc, BitVec.ofNat_add]
    · rw [sizeOf, Nat.add_assoc]
      exact hroom
  obtain ⟨d, hrun, hq⟩ := hrest hhere
  refine ⟨d, ?_, hq⟩
  rw [run, BootCpu.translate, h.rip, hwalk]
  rw [h.rip] at hstep
  simp only [Except.toOption, Option.bind_some, and_self, if_true, hstep]
  exact hrun

/-- A jump within the mapped range, to another base. -/
theorem Runs.jump {base' : Word} {target : Reg} (hlength : ∀ i, 0 < length i)
    (h : Here length lo hi base pa (.jmp target :: code) c)
    (hmaps : Maps lo hi base c.cr3 c.ia32Efer c.memory)
    (htarget : c.reg target = base' + BitVec.ofNat 64 (pa + length (.jmp target)))
    (hrest : Here length lo hi base' (pa + length (.jmp target)) code { c with rip := c.reg target } →
      Runs length (pa + length (.jmp target)) code { c with rip := c.reg target } Q) :
    Runs length pa (.jmp target :: code) c Q := by
  have hroom := h.to_hi
  have hpos := hlength (.jmp target)
  rw [sizeOf, List.map_cons, List.sum_cons] at hroom
  obtain ⟨w, hwalk⟩ := hmaps pa h.from_lo (by omega)
  obtain ⟨d, hrun, hq⟩ := hrest ⟨htarget, h.from_lo.trans (Nat.le_add_right _ _), by
    rw [sizeOf, Nat.add_assoc]
    exact hroom⟩
  refine ⟨d, ?_, hq⟩
  rw [run, BootCpu.translate, h.rip, hwalk]
  simp only [Except.toOption, Option.bind_some, and_self, if_true, step]
  exact hrun

/-- The last instruction, with its fetch. -/
theorem Runs.last (hlength : ∀ i, 0 < length i) (h : Here length lo hi base pa [i] c)
    (hmaps : Maps lo hi base c.cr3 c.ia32Efer c.memory)
    (hstep : step i { c with rip := c.rip + BitVec.ofNat 64 (length i) } = some c') (hq : Q c') :
    Runs length pa [i] c Q := by
  have hroom := h.to_hi
  have hpos := hlength i
  rw [sizeOf, List.map_cons, List.sum_cons] at hroom
  obtain ⟨w, hwalk⟩ := hmaps pa h.from_lo (by omega)
  refine ⟨c', ?_, hq⟩
  rw [run, BootCpu.translate, h.rip, hwalk]
  rw [h.rip] at hstep
  simp only [Except.toOption, Option.bind_some, and_self, if_true, hstep, run]

/-- Registers that a list of instructions clears. -/
def clearAll (rs : List Reg) (c : BootCpu) : BootCpu :=
  { c with reg := fun r => if r ∈ rs then 0 else c.reg r }

theorem clearAll_reg_of_mem {rs : List Reg} {r : Reg} (h : r ∈ rs) : (clearAll rs c).reg r = 0 :=
  if_pos h

theorem clearAll_reg_of_notMem {rs : List Reg} {r : Reg} (h : r ∉ rs) :
    (clearAll rs c).reg r = c.reg r :=
  if_neg h

theorem Runs.zeros (hlength : ∀ i, 0 < length i) {rs : List Reg} :
    ∀ {pa : ℕ} {c : BootCpu}, Here length lo hi base pa (rs.map .zero ++ code) c →
      Maps lo hi base c.cr3 c.ia32Efer c.memory →
      (∀ pa' rip, Here length lo hi base pa' code { clearAll rs c with rip := rip } →
        Runs length pa' code { clearAll rs c with rip := rip } Q) →
      Runs length pa (rs.map .zero ++ code) c Q := by
  induction rs with
  | nil => exact fun {pa c} h _ hrest => hrest pa c.rip h
  | cons r rs ih =>
    intro pa c h hmaps hrest
    refine Runs.next hlength h hmaps rfl rfl fun hnext => ih hnext hmaps fun pa' rip hhere => ?_
    have hsame : ∀ r', (if r' ∈ rs then 0 else Function.update c.reg r 0 r') =
        if r' ∈ r :: rs then 0 else c.reg r' := fun r' => by
      by_cases hr : r' = r
      · rw [hr, Function.update_self, ite_self, if_pos List.mem_cons_self]
      · rw [Function.update_of_ne hr]
        simp only [List.mem_cons, hr, false_or]
    have hcleared : ({ clearAll rs ((
        { c with rip := c.rip + BitVec.ofNat 64 (length (.zero r)) } : BootCpu).set r 0) with
          rip := rip } : BootCpu) = { clearAll (r :: rs) c with rip := rip } := by
      simp only [clearAll, BootCpu.set]
      congr 1
      funext r'
      exact hsame r'
    rw [hcleared] at hhere ⊢
    exact hrest pa' rip hhere

end Rules

/-! ## Walks before execution is restricted -/

/-- A walk that ends executable has kept the right all along. -/
theorem walkRights_executable {format : EntryFormat} {read : ℕ → Except WalkFault Word} {level : ℕ}
    {t r : Translation} {x : ℕ} (h : walkRights format read level t x = .ok r)
    (hexecutable : r.executable = true) : t.executable = true := by
  induction level generalizing t with
  | zero =>
    rw [walkRights] at h
    rw [← Except.ok.inj h] at hexecutable
    exact hexecutable
  | succ level ih =>
    rw [walkRights] at h
    cases hread : read (entryAt (level + 1) t.address x) with
    | error fault =>
      rw [hread] at h
      cases h
    | ok e =>
      rw [hread] at h
      simp only [bind, Except.bind] at h
      split at h
      · cases h
      split at h
      · cases h
      split at h
      · rw [← Except.ok.inj h] at hexecutable
        exact ((Bool.and_eq_true _ _).mp hexecutable).1
      · exact ((Bool.and_eq_true _ _).mp (ih h)).1

/-- Such a walk does not depend on `IA32_EFER.NXE`. -/
theorem walkRights_anyNxe {read : ℕ → Except WalkFault Word} {n level : ℕ} {t r : Translation} {x : ℕ}
    (h : walkRights (guestFormat ⟨n, true⟩) read level t x = .ok r)
    (hexecutable : r.executable = true)
    (nxe : Bool) : walkRights (guestFormat ⟨n, nxe⟩) read level t x = .ok r := by
  induction level generalizing t with
  | zero => exact h
  | succ level ih =>
    rw [walkRights] at h ⊢
    cases hread : read (entryAt (level + 1) t.address x) with
    | error fault =>
      rw [hread] at h
      cases h
    | ok e =>
      rw [hread] at h
      simp only [bind, Except.bind] at h ⊢
      have hsame : (guestFormat ⟨n, nxe⟩).present e = (guestFormat ⟨n, true⟩).present e := rfl
      have hformat : e.getLsbD 63 = false →
          (guestFormat ⟨n, nxe⟩).reserved (level + 1) e =
            (guestFormat ⟨n, true⟩).reserved (level + 1) e :=
        fun hbit => by simp only [guestFormat, hbit, Bool.false_and]
      split at h
      · cases h
      rename_i hpresent
      split at h
      · cases h
      rename_i hreserved
      split at h
      · rename_i hlarge
        have hbit : e.getLsbD 63 = false := by
          rw [← Except.ok.inj h] at hexecutable
          simpa using ((Bool.and_eq_true _ _).mp hexecutable).2
        rw [hsame, if_neg hpresent, hformat hbit, if_neg hreserved, if_pos hlarge]
        exact h
      · rename_i hlarge
        have hright := walkRights_executable h hexecutable
        have hbit : e.getLsbD 63 = false := by
          simpa using ((Bool.and_eq_true _ _).mp hright).2
        rw [hsame, if_neg hpresent, hformat hbit, if_neg hreserved, if_neg hlarge]
        exact ih h

/-- The tables of `efi_main` in force. -/
theorem walkUnder_nxe {root : Frame} {ia32Efer : Word} {m : Memory} {va : Word}
    (h : ia32Efer.getLsbD 11 = true) :
    walkUnder (frameAddress root) ia32Efer m va = bootWalk m root va := by
  rw [walkUnder, h, frameOf_frameAddress]
  rfl

theorem walkUnder_executable {root : Frame} {ia32Efer : Word} {m : Memory} {va : Word}
    {t : Translation} (h : bootWalk m root va = .ok t) (hexecutable : t.executable = true) :
    walkUnder (frameAddress root) ia32Efer m va = .ok t := by
  rw [walkUnder, frameOf_frameAddress]
  exact walkRights_anyNxe h hexecutable _

/-! ## The run -/

section Enter

variable {firmware : Firmware} {rounds : ℕ} {page : Word} {addresses : List Word}
  {entry last : ChainloadAttachment} {root : Frame} {b : Boot} {ia32Efer : Word} {lo hi : ℕ}

/-- The window at address zero, while it is there. -/
theorem maps_low (h : HandedOver firmware rounds page addresses entry last root b)
    (hhi : hi ≤ 2 ^ 39) :
    Maps lo hi 0 (frameAddress root) ia32Efer b.loader.memory := by
  intro a _ ha
  have hva : (0 + BitVec.ofNat 64 a : Word).toNat = a := by
    rw [zero_add, BitVec.toNat_ofNat]
    omega
  refine ⟨true, walkUnder_executable ?_ rfl⟩
  rw [h.tables.addressSpace.window _ (Or.inl (by omega)), hva, Nat.mod_eq_of_lt (by omega)]

/-- An address of the other window. -/
theorem slotOf_high {a : ℕ} (ha : a < 2 ^ 39) :
    (rkhvPhysicalMemoryBase + BitVec.ofNat 64 a).toNat = 2 ^ 40 + a ∧
      slotOf 4 (rkhvPhysicalMemoryBase + BitVec.ofNat 64 a) ≠ 0 := by
  have hbase : rkhvPhysicalMemoryBase.toNat = 2 ^ 40 := rfl
  have hva : (rkhvPhysicalMemoryBase + BitVec.ofNat 64 a).toNat = 2 ^ 40 + a := by
    rw [BitVec.toNat_add, BitVec.toNat_ofNat, hbase]
    omega
  refine ⟨hva, fun hslot => ?_⟩
  have hnat := congrArg BitVec.toNat hslot
  have hshift : levelShift 4 = 39 := rfl
  have hzero : (0 : Slot).toNat = 0 := rfl
  rw [slotOf, BitVec.extractLsb'_toNat, Nat.shiftRight_eq_div_pow, hva, hshift, hzero] at hnat
  omega

/-- What the walks of a memory must agree with, from the hand-over on. -/
def Agrees (b : Boot) (root : Frame) (m : Memory) : Prop :=
  ∀ va, slotOf 4 va ≠ 0 → bootWalk m root va = bootWalk b.loader.memory root va

/-- The window of physical memory, as long as walks agree. -/
theorem maps_high (h : HandedOver firmware rounds page addresses entry last root b)
    (hhi : hi ≤ 2 ^ 39) {m : Memory} (hm : Agrees b root m) :
    Maps lo hi rkhvPhysicalMemoryBase (frameAddress root) ia32Efer m := by
  intro a _ ha
  have hbase : rkhvPhysicalMemoryBase.toNat = 2 ^ 40 := rfl
  obtain ⟨hva, hslot⟩ := slotOf_high (ha.trans_le hhi)
  have hmod : (2 ^ 40 + a) % 2 ^ 39 = a := by omega
  refine ⟨true, walkUnder_executable ?_ rfl⟩
  rw [hm _ hslot, h.tables.addressSpace.window _ (Or.inr ⟨by omega, by omega⟩), hva, hmod]

/-- Where the stack lies in physical memory. -/
def stackPage (b : Boot) : Word := b.page.rkhvSections[3].physicalAddress

/-- The place of the return address that `chainload` pushes. -/
def returnSlot (b : Boot) : Word := stackPage b + 0xffff0

/-- The memory that the first function of the hypervisor finds. -/
def enteredMemory (b : Boot) (root : Frame) : Memory :=
  writeQword (chainloadMemory b.loader.memory root) (returnSlot b) rkhvRxBase

variable (hpages : FirmwarePages firmware.toBootServices)
  (h : HandedOver firmware rounds page addresses entry last root b)

include h

/-- The sections of code and of the stack. -/
theorem placed_sections : ∃ rx, (⟨"\\rkhv\\rkhv.rx", rkhvRxBase, sectionPages, .rx⟩, rx) ∈
      bootSections.zip addresses ∧ rx = b.page.rkhvSections[0].physicalAddress ∧
    (⟨"stack", rkhvStackBase, stackPages, .rw⟩, stackPage b) ∈ bootSections.zip addresses := by
  have hlist := HandedOver.rkhvSections h
  obtain ⟨a₁, a₂, a₃, a₄, haddresses⟩ : ∃ a b c d, addresses = [a, b, c, d] :=
    List.length_eq_four.mp (HandedOver.length_addresses h)
  rw [haddresses] at hlist
  have hfirst : b.page.rkhvSections[0].physicalAddress = a₁ := by
    rw [← Vector.getElem_toList (by rw [Vector.length_toList]; decide)]
    simp only [hlist, bootSections, List.zip_cons_cons, List.map_cons, List.getElem_cons_zero]
  have hfourth : stackPage b = a₄ := by
    rw [stackPage, ← Vector.getElem_toList (by rw [Vector.length_toList]; decide)]
    simp only [hlist, bootSections, List.zip_cons_cons, List.map_cons, List.getElem_cons_succ,
      List.getElem_cons_zero]
  refine ⟨a₁, ?_, hfirst.symm, ?_⟩
  · rw [haddresses, bootSections]
    exact List.mem_cons_self
  · rw [haddresses, bootSections, hfourth]
    simp only [List.zip_cons_cons, List.mem_cons, true_or, or_true]

include hpages in
/-- The return address lies beside the tables. -/
theorem agrees_entered : Agrees b root (chainloadMemory b.loader.memory root) ∧
    Agrees b root (enteredMemory b root) := by
  have hfirst := bootWalk_image h fun va f hf =>
    SameFrame.refl (chainloadMemory b.loader.memory root) f
  have hsecond : ∀ va f, VisitsTable b.loader.memory root va f →
      SameFrame (chainloadMemory b.loader.memory root) (enteredMemory b root) f := by
    intro va f hf x hx
    obtain ⟨_, _, _, hstack⟩ := placed_sections h
    obtain ⟨n, hlast⟩ := h.tablesLast
    obtain ⟨k, hk, hgiven⟩ := hlast.sections _ hstack
    obtain ⟨k', hk', hgiven'⟩ := hlast.tables va f hf
    have hout := le_of_not_given hpages hgiven hx fun hc => by
      have hsame := hpages.disjoint k k' f hc hgiven'
      omega
    have hsize : stackPages.toNat * 4096 = 0x100000 := by decide
    have hout' : 0x100000 ≤ (x - stackPage b).toNat := hsize ▸ hout
    have hoffset : x - returnSlot b = x - stackPage b - 0xffff0 := by
      rw [returnSlot, sub_add_eq_sub_sub]
    have hlt : (0xffff0 : Word).toNat = 0xffff0 := rfl
    refine writeBytes_apply_of_le ?_
    have hle : (0xffff0 : Word) ≤ x - stackPage b := by
      rw [BitVec.le_def, hlt]
      omega
    rw [hoffset, BitVec.toNat_sub_of_le hle, hlt]
    omega
  have hentered := bootWalk_image h hsecond
  exact ⟨fun va hslot => (hfirst va).trans (if_neg hslot),
    fun va hslot => (hentered va).trans (if_neg hslot)⟩

/-- The top of the stack, by a processor that knows the execute-disable bit. -/
theorem walk_returnSlot {m : Memory} (hm : Agrees b root m) (hnxe : ia32Efer.getLsbD 11 = true) :
    walkUnder (frameAddress root) ia32Efer m 0xfffffffffffffff0 =
      .ok ⟨(returnSlot b).toNat, true, false⟩ := by
  obtain ⟨_, _, _, hstack⟩ := placed_sections h
  have hwalk := h.tables.addressSpace.sections _ _ hstack 0xffff0 (by decide)
  have hva : rkhvStackBase + BitVec.ofNat 64 0xffff0 = 0xfffffffffffffff0 := by decide
  rw [hva] at hwalk
  rw [walkUnder_nxe hnxe, hm _ (by decide), hwalk]
  rfl

/-- The first instruction of the hypervisor. -/
theorem walk_entry {m : Memory} (hm : Agrees b root m) (hnxe : ia32Efer.getLsbD 11 = true) :
    walkUnder (frameAddress root) ia32Efer m rkhvRxBase =
      .ok ⟨b.page.rkhvSections[0].physicalAddress.toNat, false, true⟩ := by
  obtain ⟨rx, hrx, hphysical, _⟩ := placed_sections h
  have hwalk := h.tables.addressSpace.sections _ _ hrx 0 (by decide)
  have hva : rkhvRxBase + BitVec.ofNat 64 0 = rkhvRxBase := by decide
  have hpa : rx + BitVec.ofNat 64 0 = rx := BitVec.add_zero rx
  rw [hva, hpa] at hwalk
  rw [walkUnder_nxe hnxe, hm _ (by decide), hwalk, hphysical]
  rfl

end Enter

/-! ## From the first instruction to the hypervisor -/

/-- What `chainload` leaves to the hypervisor. -/
structure Entered (b : Boot) (root : Frame) (pointer : Word) (c : BootCpu) : Prop where
  rip : c.rip = rkhvRxBase
  fetch : c.translate c.rip = some ⟨b.page.rkhvSections[0].physicalAddress.toNat, false, true⟩
  parameter : c.reg .rdi = pointer
  stack : c.reg .rsp = 0xfffffffffffffff8
  frame : c.reg .rbp = 0xfffffffffffffff8
  cleared : ∀ r ∈ clearedRegs, c.reg r = 0
  cr3 : c.cr3 = frameAddress root
  nxe : c.ia32Efer.getLsbD 11 = true
  memory : c.memory = enteredMemory b root

/-- A store to a writable address. -/
theorem BootCpu.writeAt_ok {c : BootCpu} {va pa value : Word} {x : Bool}
    (h : walkUnder c.cr3 c.ia32Efer c.memory va = .ok ⟨pa.toNat, true, x⟩) :
    c.writeAt va value = some { c with memory := writeQword c.memory pa value } := by
  rw [BootCpu.writeAt, BootCpu.translate, h]
  simp only [Except.toOption, Option.bind_some, if_true, BitVec.ofNat_toNat, BitVec.setWidth_eq]

theorem step_rdmsr {c : BootCpu} (h : low32 (c.reg .rcx) = 0xc0000080) : step .rdmsr c =
    some ((c.set .rax (low32 c.ia32Efer)).set .rdx (c.ia32Efer >>> 32)) := if_pos h

theorem step_wrmsr {c : BootCpu} (h : low32 (c.reg .rcx) = 0xc0000080) : step .wrmsr c =
    some { c with ia32Efer := (c.reg .rdx).setWidth 32 ++ (c.reg .rax).setWidth 32 } := if_pos h

/-- `NXE` is set, whatever `IA32_EFER` was. -/
theorem nxe_set (v : Word) (w : BitVec 32) :
    (w ++ (low32 (low32 v) ||| 1 <<< 11).setWidth 32 : Word).getLsbD 11 = true := by
  rw [BitVec.getLsbD_append, if_pos (by decide), BitVec.getLsbD_setWidth, BitVec.getLsbD_or]
  have hbit : (1 <<< 11 : Word).getLsbD 11 = true := by decide
  rw [hbit, Bool.or_true]
  rfl

section Main

variable {firmware : Firmware} {rounds : ℕ} {page pointer : Word} {addresses : List Word}
  {entry last : ChainloadAttachment} {root : Frame} {b : Boot} {length : BootInstr → ℕ} {lo hi pa : ℕ}
  {c : BootCpu} (hpages : FirmwarePages firmware.toBootServices)
  (h : HandedOver firmware rounds page addresses entry last root b) (hlength : ∀ i, 0 < length i)
  (hhi : hi ≤ 2 ^ 39)

include hpages h hlength hhi

/-- The return into the hypervisor. -/
theorem runs_ret (hhere : Here length lo hi rkhvPhysicalMemoryBase pa [.ret] c)
    (hcr3 : c.cr3 = frameAddress root) (hnxe : c.ia32Efer.getLsbD 11 = true)
    (hmemory : c.memory = enteredMemory b root) (hrsp : c.reg .rsp = 0xfffffffffffffff0)
    (hrbp : c.reg .rbp = 0xfffffffffffffff8) (hrdi : c.reg .rdi = pointer)
    (hcleared : ∀ r ∈ clearedRegs, c.reg r = 0) :
    Runs length pa [.ret] c (Entered b root pointer) := by
  obtain ⟨_, hafter⟩ := agrees_entered hpages h
  have hmaps : Maps lo hi rkhvPhysicalMemoryBase c.cr3 c.ia32Efer c.memory := by
    rw [hcr3, hmemory]
    exact maps_high h hhi hafter
  have hpop := walk_returnSlot h hafter hnxe
  have hentry := walk_entry h hafter hnxe
  rw [← hcr3, ← hmemory] at hpop hentry
  have htop : (0xfffffffffffffff0 : Word) + 8 = 0xfffffffffffffff8 := by decide
  have hslot : BitVec.ofNat 64 (returnSlot b).toNat = returnSlot b :=
    (BitVec.ofNat_toNat _ _).trans (BitVec.setWidth_eq _)
  have hret : ∀ rip, step .ret { c with rip := rip } =
      some { c.set .rsp 0xfffffffffffffff8 with rip := rkhvRxBase } := by
    intro rip
    rw [step, BootCpu.translate, hrsp, htop, hpop]
    simp only [Except.toOption, Option.map_some, hslot, hmemory]
    rw [enteredMemory, readQword_writeQword]
    simp only [BootCpu.set, hmemory, enteredMemory]
  have hother : ∀ r ≠ .rsp, (c.set .rsp 0xfffffffffffffff8).reg r = c.reg r :=
    fun r hr => by simp only [BootCpu.set, Function.update_of_ne hr]
  have hstack : (c.set .rsp 0xfffffffffffffff8).reg .rsp = 0xfffffffffffffff8 := by
    simp only [BootCpu.set, Function.update_self]
  refine Runs.last hlength hhere hmaps (hret _) ⟨rfl, ?_, (hother .rdi (by decide)).trans hrdi,
    hstack, (hother .rbp (by decide)).trans hrbp, fun r hr => ?_, hcr3, hnxe, hmemory⟩
  · exact congrArg Except.toOption hentry
  · have hne : r ≠ .rsp := by
      rintro rfl
      exact absurd hr (by simp [clearedRegs])
    exact (hother r hne).trans (hcleared r hr)

/-- The stack and the way to the return. -/
theorem runs_stack (hhere : Here length lo hi rkhvPhysicalMemoryBase pa
      (.movImm .rsp 0xfffffffffffffff8 :: .mov .rbp .rsp :: .movImm .rax 0xffffff0000000000 ::
        .push .rax :: (clearedRegs.map .zero ++ [.ret])) c)
    (hcr3 : c.cr3 = frameAddress root) (hnxe : c.ia32Efer.getLsbD 11 = true)
    (hmemory : c.memory = chainloadMemory b.loader.memory root) (hrdi : c.reg .rdi = pointer) :
    Runs length pa (.movImm .rsp 0xfffffffffffffff8 :: .mov .rbp .rsp ::
      .movImm .rax 0xffffff0000000000 :: .push .rax :: (clearedRegs.map .zero ++ [.ret])) c
      (Entered b root pointer) := by
  obtain ⟨hbefore, hafter⟩ := agrees_entered hpages h
  have hmaps : Maps lo hi rkhvPhysicalMemoryBase c.cr3 c.ia32Efer c.memory := by
    rw [hcr3, hmemory]
    exact maps_high h hhi hbefore
  have hmaps' : Maps lo hi rkhvPhysicalMemoryBase c.cr3 c.ia32Efer (enteredMemory b root) := by
    rw [hcr3]
    exact maps_high h hhi hafter
  have hpush := walk_returnSlot h hbefore hnxe
  rw [← hcr3, ← hmemory] at hpush
  have htop : (0xfffffffffffffff8 : Word) - 8 = 0xfffffffffffffff0 := by decide
  -- the address of the hypervisor is pushed
  have hstore : ∀ c' : BootCpu, c'.cr3 = c.cr3 → c'.ia32Efer = c.ia32Efer → c'.memory = c.memory →
      c'.reg .rsp = 0xfffffffffffffff8 → c'.reg .rax = rkhvRxBase →
      step (.push .rax) c' =
        some ({ c' with memory := enteredMemory b root }.set .rsp 0xfffffffffffffff0) := by
    intro c' h₁ h₂ h₃ hrsp hrax
    have hwrite : c'.writeAt 0xfffffffffffffff0 rkhvRxBase = _ :=
      BootCpu.writeAt_ok (by rw [h₁, h₂, h₃]; exact hpush)
    rw [h₃, hmemory] at hwrite
    rw [step, hrsp, hrax, htop, hwrite, Option.map_some, enteredMemory]
    simp only [hrsp, htop]
  have hkept : ∀ c' : BootCpu, ∀ r ∉ clearedRegs, (clearAll clearedRegs c').reg r = c'.reg r :=
    fun _ _ => clearAll_reg_of_notMem
  refine Runs.next hlength hhere hmaps rfl rfl fun hhere => ?_
  refine Runs.next hlength hhere hmaps rfl rfl fun hhere => ?_
  refine Runs.next hlength hhere hmaps rfl rfl fun hhere => ?_
  refine Runs.next hlength hhere hmaps (hstore _ rfl rfl rfl rfl rfl) rfl fun hhere => ?_
  refine Runs.zeros hlength hhere hmaps' fun pa' rip hhere => ?_
  exact runs_ret hpages h hlength hhi hhere hcr3 hnxe rfl (hkept _ .rsp (by simp [clearedRegs]))
    (hkept _ .rbp (by simp [clearedRegs])) ((hkept _ .rdi (by simp [clearedRegs])).trans hrdi)
    fun r hr => clearAll_reg_of_mem hr

/-- From the new base of physical memory on. -/
theorem runs_enter (hhere : Here length lo hi rkhvPhysicalMemoryBase pa chainloadEnter c)
    (hcr3 : c.cr3 = frameAddress root) (hmemory : c.memory = b.loader.memory)
    (hrdi : c.reg .rdi = pointer) (hrdx : c.reg .rdx = frameAddress root)
    (hroot : (frameAddress root).toNat < 2 ^ 39) :
    Runs length pa chainloadEnter c (Entered b root pointer) := by
  obtain ⟨hbefore, hafter⟩ := agrees_entered hpages h
  have hmaps : Maps lo hi rkhvPhysicalMemoryBase c.cr3 c.ia32Efer c.memory := by
    rw [hcr3, hmemory]
    exact maps_high h hhi fun _ _ => rfl
  have hmaps' : ∀ ia32Efer, Maps lo hi rkhvPhysicalMemoryBase (c.reg .rdx) ia32Efer
      (chainloadMemory b.loader.memory root) := by
    intro ia32Efer
    rw [hrdx]
    exact maps_high h hhi hbefore
  have hwindow : walkUnder c.cr3 c.ia32Efer c.memory (c.reg .rdx) =
      .ok ⟨(frameAddress root).toNat, true, true⟩ := by
    have hwalk := h.tables.addressSpace.window _ (Or.inl hroot)
    rw [Nat.mod_eq_of_lt hroot] at hwalk
    rw [hcr3, hmemory, hrdx]
    exact walkUnder_executable hwalk rfl
  rw [chainloadEnter, List.cons_append] at hhere ⊢
  refine Runs.next hlength hhere hmaps rfl rfl fun hhere => ?_
  -- the window at address zero goes away, by a store through it
  have hstore : ∀ c' : BootCpu, c'.cr3 = c.cr3 → c'.ia32Efer = c.ia32Efer → c'.memory = c.memory →
      c'.reg .rdx = c.reg .rdx → c'.reg .rax = 0 → step (.store .rdx .rax) c' =
        some { c' with memory := chainloadMemory b.loader.memory root } := by
    intro c' h₁ h₂ h₃ hbase hrax
    rw [step, hbase, hrax, BootCpu.writeAt_ok (by rw [h₁, h₂, h₃]; exact hwindow), h₃, hmemory]
    rfl
  refine Runs.next hlength hhere hmaps (hstore _ rfl rfl rfl rfl rfl) rfl fun hhere => ?_
  have hmaps₂ : Maps lo hi rkhvPhysicalMemoryBase c.cr3 c.ia32Efer
      (chainloadMemory b.loader.memory root) := by
    rw [hcr3]
    exact maps_high h hhi hbefore
  refine Runs.next hlength hhere hmaps₂ rfl rfl fun hhere => ?_
  refine Runs.next hlength hhere (hmaps' _) rfl rfl fun hhere => ?_
  have hecx : low32 0xc0000080 = 0xc0000080 := by decide
  -- `NXE`
  refine Runs.next hlength hhere (hmaps' _) (step_rdmsr hecx) rfl fun hhere => ?_
  refine Runs.next hlength hhere (hmaps' _) rfl rfl fun hhere => ?_
  refine Runs.next hlength hhere (hmaps' _) (step_wrmsr hecx) rfl fun hhere => ?_
  exact runs_stack hpages h hlength hhi hhere hrdx (nxe_set _ _) rfl hrdi

end Main

/-- `chainload` never faults, on any processor that the firmware left at its first
instruction: it ends at the first instruction of the hypervisor, in executable and
read-only memory, with `efi_main`'s parameter, an empty stack, the other registers
clear, `NXE` set, and the window at address zero gone. The firmware maps `chainload`
where it is, and all of it and the PML4 lie below 512 GiB. -/
theorem chainload_enters {firmware : Firmware} {rounds : ℕ} {memory : Memory} {pointer : Word}
    {root : Frame} {b : Boot} {length : BootInstr → ℕ} {start : ℕ} {newPhysicalBase : Word}
    {c : BootCpu} (hpages : FirmwarePages firmware.toBootServices)
    (h : efiMain firmware rounds (bootStart memory) = .ok (pointer, frameAddress root) b)
    (hlength : ∀ i, 0 < length i)
    (hlabel : newPhysicalBase =
      BitVec.ofNat 64 (start + sizeOf length (chainloadSwitch newPhysicalBase)))
    (hend : start + sizeOf length (chainload newPhysicalBase) ≤ 2 ^ 39)
    (hroot : (frameAddress root).toNat < 2 ^ 39)
    (hfirmware : Maps start (start + sizeOf length (chainload newPhysicalBase)) 0 c.cr3 c.ia32Efer
      c.memory)
    (hrip : c.rip = BitVec.ofNat 64 start) (hmemory : c.memory = b.loader.memory)
    (hrcx : c.reg .rcx = pointer) (hrdx : c.reg .rdx = frameAddress root) :
    ∃ c', run length start (chainload newPhysicalBase) c = some c' ∧ Entered b root pointer c' := by
  obtain ⟨page, addresses, entry, last, _, hover⟩ := efiMain_handedOver hpages h
  have hlow : ∀ ia32Efer, Maps start (start + sizeOf length (chainload newPhysicalBase)) 0
      (c.reg .rdx) ia32Efer c.memory := by
    intro ia32Efer
    rw [hrdx, hmemory]
    exact maps_low hover hend
  have hbase : newPhysicalBase = BitVec.ofNat 64 (start + length .cli + length (.mov .rdi .rcx) +
      length (.movCr3 .rdx) + length (.movImm .rax (rkhvPhysicalMemoryBase + newPhysicalBase)) +
      length (.jmp .rax)) := by
    refine hlabel.trans (congrArg _ ?_)
    simp only [sizeOf, chainloadSwitch, List.map_cons, List.map_nil, List.sum_cons, List.sum_nil]
    omega
  have hhere : Here length start (start + sizeOf length (chainload newPhysicalBase)) 0 start
      (chainload newPhysicalBase) c := ⟨by rw [hrip, zero_add], le_refl _, le_refl _⟩
  rw [chainload, chainloadSwitch] at hhere ⊢
  refine Runs.next hlength hhere hfirmware rfl rfl fun hhere => ?_
  refine Runs.next hlength hhere hfirmware rfl rfl fun hhere => ?_
  refine Runs.next hlength hhere hfirmware rfl rfl fun hhere => ?_
  -- from here on through the tables of `efi_main`
  refine Runs.next hlength hhere (hlow _) rfl rfl fun hhere => ?_
  refine Runs.jump hlength hhere (hlow _) (congrArg (rkhvPhysicalMemoryBase + ·) hbase)
    fun hhere => ?_
  exact runs_enter hpages hover hlength hend hhere hrdx hmemory hrcx hrdx hroot

/-- The PML4 of the roomy firmware. -/
theorem root_roomy {memory : Memory} {rounds : ℕ} {pointer : Word} {root : Frame} {b : Boot}
    (h : efiMain roomyFirmware rounds (bootStart memory) = .ok (pointer, frameAddress root) b) :
    (frameAddress root).toNat < 2 ^ 39 := by
  obtain ⟨page, addresses, entry, last, _, hover⟩ := efiMain_handedOver firmwarePages_roomy h
  obtain ⟨k, hlast⟩ := hover.tablesLast
  obtain ⟨n, address, hanswer, _, hlt⟩ := hlast.given
  obtain ⟨hn, hk, haddress⟩ := roomyFirmware_answers hanswer
  omega

/-- A processor in `efi_main`, as it calls `chainload`. -/
def callingCpu (pointer : Word) (root : Frame) (memory : Memory) : BootCpu where
  reg := Function.update (Function.update (fun _ => 0) .rcx pointer) .rdx (frameAddress root)
  rip := 0x1000
  cr3 := frameAddress root
  ia32Efer := 0
  memory := memory

theorem chainload_enters_roomy : ∃ pointer root b c',
    run (fun _ => 15) 0x1000 (chainload 0x104b) (callingCpu pointer root b.loader.memory) = some c' ∧
      Entered b root pointer c' := by
  obtain ⟨pointer, root, b, hmain⟩ := efiMain_roomy fun _ => 0
  obtain ⟨page, addresses, entry, last, _, hover⟩ := efiMain_handedOver firmwarePages_roomy hmain
  exact ⟨pointer, root, b, chainload_enters firmwarePages_roomy hmain (fun _ => by decide) (by decide)
    (by decide) (root_roomy hmain) (maps_low hover (by decide)) rfl rfl rfl rfl⟩

end Rkhv.BootChainload
