import Rkhv.Amd64
import Rkhv.VmexitFrame

/-!
# The assembly around compiled functions

`vmx_vmexit` saves the registers of a guest in the layout that the exit handler
reads, keeps its extended state aside and resumes it with what the handler left.
`vmx_vmlaunch` enters a guest with the registers of its record, and the interrupt
stubs return to the interrupted code as if nothing had happened.
-/

namespace Rkhv.EntryStubs

open ByteMemory HostTypes HostState StateOutcome Amd64 Vmcs VmxVmexit VmexitFrame HostRuns

/-- The variables that the stubs read. -/
inductive Variable where
  | xsaveHostXcr0
  | xsaveAreaSize

/-- The compiled functions that the stubs call. -/
inductive Function where
  | vmxVmexitHandler
  | interruptsHandler

variable {ε : Type} {env : Env Variable Function ε} {m m' : Machine ε}

/-! ## Layout -/

/-- `vmx_vmexit_reg_state_t` at an address, and `vmx_initial_gpr_state_t`, which has
the same layout. -/
def regStateAt (memory : Memory) (a : Word) : VmxVmexitRegState where
  r15 := readQword memory (stackSlot a 0)
  r14 := readQword memory (stackSlot a 1)
  r13 := readQword memory (stackSlot a 2)
  r12 := readQword memory (stackSlot a 3)
  r11 := readQword memory (stackSlot a 4)
  r10 := readQword memory (stackSlot a 5)
  r9 := readQword memory (stackSlot a 6)
  r8 := readQword memory (stackSlot a 7)
  rdi := readQword memory (stackSlot a 8)
  rsi := readQword memory (stackSlot a 9)
  rbp := readQword memory (stackSlot a 10)
  rdx := readQword memory (stackSlot a 11)
  rcx := readQword memory (stackSlot a 12)
  rbx := readQword memory (stackSlot a 13)
  rax := readQword memory (stackSlot a 14)

/-- The registers themselves. -/
def gprs (reg : Reg → Word) : VmxVmexitRegState where
  r15 := reg .r15
  r14 := reg .r14
  r13 := reg .r13
  r12 := reg .r12
  r11 := reg .r11
  r10 := reg .r10
  r9 := reg .r9
  r8 := reg .r8
  rdi := reg .rdi
  rsi := reg .rsi
  rbp := reg .rbp
  rdx := reg .rdx
  rcx := reg .rcx
  rbx := reg .rbx
  rax := reg .rax

/-- `sizeof(vmx_vmexit_reg_state_t)` -/
def sizeofRegState : ℕ := 120

theorem regStateAt_congr {memory memory' : Memory} {a : Word}
    (h : ∀ b, (b - a).toNat < sizeofRegState → memory' b = memory b) :
    regStateAt memory' a = regStateAt memory a := by
  have hslot : ∀ j < 15, readQword memory' (stackSlot a j) = readQword memory (stackSlot a j) :=
    fun j hj => readQword_congr fun k hk => h _ (by
      simp only [stackSlot, sizeofRegState, BitVec.toNat_sub, BitVec.toNat_add, BitVec.toNat_ofNat]
      omega)
  simp only [regStateAt, hslot 0 (by decide), hslot 1 (by decide), hslot 2 (by decide),
    hslot 3 (by decide), hslot 4 (by decide), hslot 5 (by decide), hslot 6 (by decide),
    hslot 7 (by decide), hslot 8 (by decide), hslot 9 (by decide), hslot 10 (by decide),
    hslot 11 (by decide), hslot 12 (by decide), hslot 13 (by decide), hslot 14 (by decide)]

/-- The registers that `vmx_vmexit` and `isr_backup_regs` push. -/
def savedRegs : List Reg :=
  [.rax, .rbx, .rcx, .rdx, .rbp, .rsi, .rdi, .r8, .r9, .r10, .r11, .r12, .r13, .r14, .r15]

/-- The registers that `vmx_vmexit` and `isr_restore_regs` pop. -/
def restoredRegs : List Reg :=
  [.r15, .r14, .r13, .r12, .r11, .r10, .r9, .r8, .rdi, .rsi, .rbp, .rdx, .rcx, .rbx, .rax]

/-- The pushes lay out the structure. -/
theorem regStateAt_pushed (h : Pushed m m' savedRegs) :
    regStateAt m'.memory (m'.reg .rsp) = gprs m.reg := by
  simp only [regStateAt, gprs, h.slot 0 .r15 rfl, h.slot 1 .r14 rfl, h.slot 2 .r13 rfl,
    h.slot 3 .r12 rfl, h.slot 4 .r11 rfl, h.slot 5 .r10 rfl, h.slot 6 .r9 rfl, h.slot 7 .r8 rfl,
    h.slot 8 .rdi rfl, h.slot 9 .rsi rfl, h.slot 10 .rbp rfl, h.slot 11 .rdx rfl,
    h.slot 12 .rcx rfl, h.slot 13 .rbx rfl, h.slot 14 .rax rfl]

/-- The pops load it. -/
theorem gprs_popped (h : Popped m m' restoredRegs) :
    gprs m'.reg = regStateAt m.memory (m.reg .rsp) := by
  simp only [regStateAt, gprs, h.slot 0 .r15 rfl, h.slot 1 .r14 rfl, h.slot 2 .r13 rfl,
    h.slot 3 .r12 rfl, h.slot 4 .r11 rfl, h.slot 5 .r10 rfl, h.slot 6 .r9 rfl, h.slot 7 .r8 rfl,
    h.slot 8 .rdi rfl, h.slot 9 .rsi rfl, h.slot 10 .rbp rfl, h.slot 11 .rdx rfl,
    h.slot 12 .rcx rfl, h.slot 13 .rbx rfl, h.slot 14 .rax rfl]

theorem reg_eq_of_gprs {reg reg' : Reg → Word} (h : gprs reg = gprs reg') (hrsp : reg .rsp = reg' .rsp) :
    reg = reg' := by
  simp only [gprs, VmxVmexitRegState.mk.injEq] at h
  funext r
  cases r <;> simp only [h, hrsp]

/-! ## Saving and restoring all of the state -/

/-- A machine whose registers and extended state are saved below its stack pointer:
RBX points to the registers and RSP to the area. -/
structure StateSaved (env : Env Variable Function ε) (m m' : Machine ε) : Prop where
  bottom : m'.reg .rbx = m.reg .rsp - BitVec.ofNat 64 sizeofRegState
  aligned : (m'.reg .rsp).toNat % 64 = 0
  room : (env.var .xsaveAreaSize).toNat ≤ (m'.reg .rbx - m'.reg .rsp).toNat
  near : (m'.reg .rbx - m'.reg .rsp).toNat < (env.var .xsaveAreaSize).toNat + 64
  regState : regStateAt m'.memory (m'.reg .rbx) = gprs m.reg
  memory : ∀ b, (b - m.reg .rsp).toNat < 2 ^ 63 → m'.memory b = m.memory b
  restored : ∀ ext' memory', (∀ b, (b - m'.reg .rsp).toNat < (m'.reg .rbx - m'.reg .rsp).toNat →
    memory' b = m'.memory b) → env.restored m'.xcr0 (-1) memory' (m'.reg .rsp) ext' = some m.ext

theorem stateSaved {m₁ m₂ : Machine ε} (hsize : (env.var .xsaveAreaSize).toNat < 2 ^ 32)
    (hpushed : Pushed m m₁ savedRegs) (honly : m₂ = { m₁ with reg := m₂.reg, xcr0 := m₂.xcr0 })
    (hrsp : m₂.reg .rsp = m₁.reg .rsp)
    (hsaved : Saved env m₂ m' (env.var .xsaveAreaSize) .rbx) : StateSaved env m m' := by
  have hdistance := @areaBelow_distance (m₂.reg .rsp) (env.var .xsaveAreaSize) (by omega)
  rw [← hsaved.rsp, ← hsaved.kept] at hdistance
  obtain ⟨haligned, hroom, hnear⟩ := hdistance
  have hbottom : m'.reg .rbx = m.reg .rsp - BitVec.ofNat 64 sizeofRegState := by
    rw [hsaved.kept, hrsp, hpushed.rsp]
    rfl
  have hmemory : m₂.memory = m₁.memory := by rw [honly]
  have hxcr0 : m'.xcr0 = m₂.xcr0 := by rw [hsaved.only]
  have hext : m₂.ext = m.ext := by rw [honly, hpushed.only]
  refine ⟨hbottom, haligned, hroom, hnear, ?_, fun b hb => ?_, fun ext' memory' hsame => ?_⟩
  · rw [← regStateAt_pushed hpushed, ← hrsp, ← hsaved.kept]
    refine regStateAt_congr fun b hb => ?_
    rw [hsaved.memory, hmemory]
    rw [BitVec.toNat_sub] at hb hroom hnear ⊢
    rw [sizeofRegState] at hb
    omega
  · rw [hsaved.memory, hmemory, hpushed.memory]
    · rw [hpushed.rsp]
      simp only [BitVec.toNat_sub, BitVec.toNat_ofNat, savedRegs, List.length_cons,
        List.length_nil] at hb ⊢
      omega
    · rw [hbottom, sizeofRegState] at hroom hnear
      simp only [BitVec.toNat_sub, BitVec.toNat_ofNat] at hb hroom hnear ⊢
      omega
  · rw [hxcr0, hsaved.restored ext' memory' fun b hb => hsame b (by omega), hext]

theorem and_stackMask {v : Word} (h : v.toNat % 64 = 0) : v &&& 0xfffffffffffffff0 = v := by
  have hbits : ∀ i : Fin 64, (0xfffffffffffffff0 : Word).getLsbD i = decide (4 ≤ i.val) := by decide
  apply BitVec.eq_of_getLsbD_eq
  intro i hi
  rw [BitVec.getLsbD_and, hbits ⟨i, hi⟩]
  by_cases hlow : 4 ≤ i
  · simp [hlow]
  · have hbit : v.getLsbD i = false := by
      rw [BitVec.getLsbD, Nat.testBit_eq_decide_div_mod_eq, decide_eq_false_iff_not]
      have hcases : i = 0 ∨ i = 1 ∨ i = 2 ∨ i = 3 := by omega
      rcases hcases with rfl | rfl | rfl | rfl <;> omega
    rw [hbit, Bool.false_and]

/-- After a call that kept the saved state the extended state is the old one, and
RSP points to the registers. -/
theorem run_restoreState {m₁ m₂ : Machine ε} (hsaved : StateSaved env m m₁)
    (hreg : m₂.reg .rbx = m₁.reg .rbx ∧ m₂.reg .rsp = m₁.reg .rsp) (hxcr0 : m₂.xcr0 = m₁.xcr0)
    (hmemory : ∀ b, (b - m₁.reg .rsp).toNat < (m₁.reg .rbx - m₁.reg .rsp).toNat →
      m₂.memory b = m₁.memory b) :
    Runs env (restoreArea .rbx) m₂ fun m' => m' = { m₂ with reg := m'.reg, ext := m.ext } ∧
      m'.reg .rsp = m₁.reg .rbx ∧ ∀ r, r ∉ [.rax, .rdx, .rsp] → m'.reg r = m₂.reg r := by
  have hrestored := hsaved.restored m₂.ext m₂.memory hmemory
  rw [← hxcr0, ← hreg.2] at hrestored
  have haligned := hsaved.aligned
  rw [← hreg.2] at haligned
  refine (run_restoreArea (by decide) haligned hrestored).mono fun m' hdone => ?_
  exact ⟨hdone.1, hdone.2.1.trans hreg.1, hdone.2.2⟩

/-- Popping the registers from there frees the stack. -/
theorem popped_rsp {m₁ m₂ : Machine ε} (hsaved : StateSaved env m m₁)
    (hrsp : m₂.reg .rsp = m₁.reg .rbx) (hpopped : Popped m₂ m' restoredRegs) :
    m'.reg .rsp = m.reg .rsp := by
  have hlength : 8 * restoredRegs.length = sizeofRegState := rfl
  rw [hpopped.rsp, hrsp, hsaved.bottom, hlength, BitVec.sub_add_cancel]

/-! ## Exits -/

/-- The call of the handler in `vmx_vmexit`. -/
def callHandler : List (Instr Variable Function) := [
  .mov .rdi .rbx,
  .mov .rsi .rsp,
  .mov .rbp .rsp,
  .andImm .rsp 0xfffffffffffffff0,
  .call .vmxVmexitHandler,
  .mov .rdi .rax,
  .mov .rsp .rbp]

/-- `vmx_vmexit`, up to `vmresume`. -/
def vmxVmexit : List (Instr Variable Function) :=
  savedRegs.map Instr.push ++
  -- the host's XCR0, so that all of the state is saved
  ((Instr.loadVar .rdx .xsaveHostXcr0 :: setXcr0) ++
  ((zeroedArea .xsaveAreaSize .rbx ++ [Instr.xsave .rsp]) ++
  (callHandler ++
  (restoreArea .rbx ++
  ((Instr.load .rdx .rdi 0 :: setXcr0) ++
  restoredRegs.map Instr.pop)))))

/-- A call of the compiled `vmx_vmexit_handler` that returned: the structure at its
first argument holds the registers to resume with, the permanent state that it
returns begins with an XCR0, and what lies between the stack pointer and the
structure is kept. -/
structure HandlerReturned (m m' : Machine ε) (reg : VmxVmexitRegState) (xcr0 : Word) : Prop where
  returned : CReturned m m' (m.reg .rdi - m.reg .rsp).toNat
  regState : regStateAt m'.memory (m.reg .rdi) = reg
  permanentState : readQword m'.memory (m'.reg .rax) = xcr0

/-- The compiled function does what the C function says, when it is called with an
aligned stack pointer not far below the structure at the top of the stack. -/
def CallsHandler (env : Env Variable Function ε) (hw : Hardware) (s : Hv) : Prop :=
  ∀ (m : Machine ε) (reg : VmxVmexitRegState) (vm : Word) (s' : Hv), (m.reg .rsp).toNat % 16 = 0 →
    m.reg .rdi = rkhvStackTop - BitVec.ofNat 64 sizeofRegState →
    (m.reg .rdi - m.reg .rsp).toNat < 2 ^ 33 →
    vmxVmexitHandler hw (regStateAt m.memory (m.reg .rdi)) s = .ok (reg, vm) s' →
    ∃ m', env.callee .vmxVmexitHandler m = some m' ∧ HandlerReturned m m' reg (s'.vmAt vm).xcr0

/-- From the saved state the handler is called, and its results are at hand. -/
theorem run_callHandler {hw : Hardware} {s s' : Hv} {reg : VmxVmexitRegState} {vm : Word}
    {m₁ : Machine ε} (hsize : (env.var .xsaveAreaSize).toNat < 2 ^ 32) (hcall : CallsHandler env hw s)
    (htop : m.reg .rsp = rkhvStackTop) (hsaved : StateSaved env m m₁) (h : vmxVmexitHandler hw (gprs m.reg) s = .ok (reg, vm) s') :
    Runs env callHandler m₁ fun m₂ =>
      (m₂.reg .rbx = m₁.reg .rbx ∧ m₂.reg .rsp = m₁.reg .rsp) ∧ m₂.xcr0 = m₁.xcr0 ∧
      (∀ b, (b - m₁.reg .rsp).toNat < (m₁.reg .rbx - m₁.reg .rsp).toNat →
        m₂.memory b = m₁.memory b) ∧
      regStateAt m₂.memory (m₁.reg .rbx) = reg ∧
      readQword m₂.memory (m₂.reg .rdi) = (s'.vmAt vm).xcr0 := by
  refine Runs.cons rfl (Runs.cons rfl (Runs.cons rfl (Runs.cons rfl ?_)))
  generalize hat : (((m₁.set .rdi (m₁.reg .rbx)).set .rsi _).set .rbp _).set .rsp _ = m₂
  have hmask := and_stackMask hsaved.aligned
  have hrdi : m₂.reg .rdi = m₁.reg .rbx := by
    rw [← hat]
    simp [Machine.set]
  have hrbx : m₂.reg .rbx = m₁.reg .rbx := by
    rw [← hat]
    simp [Machine.set]
  have hrbp : m₂.reg .rbp = m₁.reg .rsp := by
    rw [← hat]
    simp [Machine.set]
  have hrsp : m₂.reg .rsp = m₁.reg .rsp := by
    rw [← hat]
    simpa [Machine.set] using hmask
  have hmemory : m₂.memory = m₁.memory := by rw [← hat]; rfl
  have hxcr0 : m₂.xcr0 = m₁.xcr0 := by rw [← hat]; rfl
  have hregState : regStateAt m₂.memory (m₂.reg .rdi) = gprs m.reg := by
    rw [hmemory, hrdi, hsaved.regState]
  have hnear := hsaved.near
  have haligned := hsaved.aligned
  rw [← hregState] at h
  obtain ⟨m₃, hcallee, hreturned⟩ := hcall m₂ reg vm s' (by rw [hrsp]; omega)
    (by rw [hrdi, hsaved.bottom, htop]) (by rw [hrdi, hrsp]; omega) h
  obtain ⟨hkept, hstruct, hpermanent⟩ := hreturned
  have hframe := hkept.memory
  rw [hrdi, hrsp] at hframe
  refine Runs.cons hcallee (Runs.cons rfl (Runs.cons rfl (Runs.nil ?_)))
  refine ⟨⟨?_, ?_⟩, hkept.xcr0.trans hxcr0, fun b hb => (hframe b hb).trans (by rw [hmemory]),
    hrdi ▸ hstruct, ?_⟩
  · simp [Machine.set, hkept.reg .rbx (by decide), hrbx]
  · simp [Machine.set, hkept.reg .rbp (by decide), hrbp]
  · simp [Machine.set, hpermanent]

/-- The call of the handler in `isr_stub`. -/
def callInterruptsHandler (vector : Word) : List (Instr Variable Function) := [
  .mov .rbp .rsp,
  .andImm .rsp 0xfffffffffffffff0,
  .movImm .rdi vector,
  .call .interruptsHandler,
  .mov .rsp .rbp]

/-- `isr_stub`, up to `iretq`. -/
def isrStub (vector : Word) : List (Instr Variable Function) :=
  savedRegs.map Instr.push ++
  ([Instr.mov .rsi .rsp] ++
  ((zeroedArea .xsaveAreaSize .rbx ++ [Instr.xsave .rsp]) ++
  (callInterruptsHandler vector ++
  (restoreArea .rbx ++
  restoredRegs.map Instr.pop))))

/-- The compiled `interrupts_handler` returns for a vector, with nothing written
above its frame. -/
def CallsInterruptsHandler (env : Env Variable Function ε) (vector : Word) : Prop :=
  ∀ m : Machine ε, (m.reg .rsp).toNat % 16 = 0 → m.reg .rdi = vector →
    ∃ m', env.callee .interruptsHandler m = some m' ∧ CReturned m m' (2 ^ 63)

theorem run_callInterruptsHandler {vector : Word} {m₁ : Machine ε} (hsaved : StateSaved env m m₁)
    (hcall : CallsInterruptsHandler env vector) :
    Runs env (callInterruptsHandler vector) m₁ fun m₂ =>
      (m₂.reg .rbx = m₁.reg .rbx ∧ m₂.reg .rsp = m₁.reg .rsp) ∧ m₂.xcr0 = m₁.xcr0 ∧
      ∀ b, (b - m₁.reg .rsp).toNat < 2 ^ 63 → m₂.memory b = m₁.memory b := by
  refine Runs.cons rfl (Runs.cons rfl (Runs.cons rfl ?_))
  generalize hat : ((m₁.set .rbp _).set .rsp _).set .rdi vector = m₂
  have hmask := and_stackMask hsaved.aligned
  have hrdi : m₂.reg .rdi = vector := by
    rw [← hat]
    simp [Machine.set]
  have hrbx : m₂.reg .rbx = m₁.reg .rbx := by
    rw [← hat]
    simp [Machine.set]
  have hrbp : m₂.reg .rbp = m₁.reg .rsp := by
    rw [← hat]
    simp [Machine.set]
  have hrsp : m₂.reg .rsp = m₁.reg .rsp := by
    rw [← hat]
    simpa [Machine.set] using hmask
  have hmemory : m₂.memory = m₁.memory := by rw [← hat]; rfl
  have hxcr0 : m₂.xcr0 = m₁.xcr0 := by rw [← hat]; rfl
  have haligned := hsaved.aligned
  obtain ⟨m₃, hcallee, hkept⟩ := hcall m₂ (by rw [hrsp]; omega) hrdi
  have hframe := hkept.memory
  rw [hrsp] at hframe
  refine Runs.cons hcallee (Runs.cons rfl (Runs.nil ⟨⟨?_, ?_⟩, hkept.xcr0.trans hxcr0,
    fun b hb => (hframe b hb).trans (by rw [hmemory])⟩))
  · simp [Machine.set, hkept.reg .rbx (by decide), hrbx]
  · simp [Machine.set, hkept.reg .rbp (by decide), hrbp]

/-- An interrupt whose handler returns is not noticed by the code that it interrupts:
all registers, the extended state, XCR0 and the stack with the return frame are as
before. -/
theorem isrStub_transparent {vector : Word} (hsize : (env.var .xsaveAreaSize).toNat < 2 ^ 32)
    (hcall : CallsInterruptsHandler env vector)
    (hxsave : XsaveContract env m.xcr0 (env.var .xsaveAreaSize)) :
    Runs env (isrStub vector) m fun m' => m' = { m with memory := m'.memory } ∧
      ∀ b, (b - m.reg .rsp).toNat < 2 ^ 62 → m'.memory b = m.memory b := by
  refine Runs.append (run_pushes (by decide) (by decide) m) fun m₁ hpushed => ?_
  have hxcr0₁ : m₁.xcr0 = m.xcr0 := by rw [hpushed.only]
  refine Runs.append (Runs.cons rfl (Runs.nil rfl)) fun m₂ hmoved => ?_
  have hxcr0₂ : m₂.xcr0 = m.xcr0 := by rw [← hmoved]; exact hxcr0₁
  refine Runs.append (run_saveArea (by decide) (by omega) (hxcr0₂ ▸ hxsave)) fun m₃ harea => ?_
  have hsaved : StateSaved env m m₃ := stateSaved hsize hpushed (by rw [← hmoved]; rfl)
    (by rw [← hmoved]; rfl) harea
  have hnear := hsaved.near
  refine Runs.append (run_callInterruptsHandler hsaved hcall) fun m₄ hreturned => ?_
  obtain ⟨hregs, hxcr0, hmemory⟩ := hreturned
  refine Runs.append (run_restoreState hsaved hregs hxcr0 fun b hb => hmemory b (by omega))
    fun m₅ hrestored => ?_
  obtain ⟨honly₅, hrsp₅, hreg₅⟩ := hrestored
  refine (run_pops (by decide) (by decide) m₅).mono fun m' hpopped => ?_
  have hmemory₅ : m₅.memory = m₄.memory := by rw [honly₅]
  have hmemory' : m'.memory = m₄.memory := by rw [hpopped.only, hmemory₅]
  have hgprs : gprs m'.reg = gprs m.reg := by
    rw [gprs_popped hpopped, hmemory₅, hrsp₅, ← hsaved.regState]
    refine regStateAt_congr fun b hb => hmemory b ?_
    rw [BitVec.toNat_sub] at hb hnear ⊢
    rw [sizeofRegState] at hb
    omega
  have hreg : m'.reg = m.reg := reg_eq_of_gprs hgprs (popped_rsp hsaved hrsp₅ hpopped)
  have hxcr0' : m'.xcr0 = m.xcr0 := by
    rw [hpopped.only, honly₅]
    exact hxcr0.trans (by rw [harea.only]; exact hxcr0₂)
  have hext' : m'.ext = m.ext := by rw [hpopped.only, honly₅]
  refine ⟨?_, fun b hb => ?_⟩
  · rw [← hreg, ← hxcr0', ← hext']
  · have hbottom := hsaved.bottom
    rw [hmemory', hmemory b, hsaved.memory b (by omega)]
    rw [hbottom, sizeofRegState] at hnear
    simp only [BitVec.toNat_sub, BitVec.toNat_ofNat] at hb hnear ⊢
    omega

/-! ## The launch -/

/-- The registers that `vmx_vmlaunch` backs up in case the launch fails. -/
def backedUpRegs : List Reg := [.rbx, .rbp, .r12, .r13, .r14, .r15]

/-- The loads of the initial registers, RBX last since it holds their address. -/
def gprLoads : List (Instr Variable Function) := [
  .load .r15 .rbx 0,
  .load .r14 .rbx 8,
  .load .r13 .rbx 16,
  .load .r12 .rbx 24,
  .load .r11 .rbx 32,
  .load .r10 .rbx 40,
  .load .r9 .rbx 48,
  .load .r8 .rbx 56,
  .load .rdi .rbx 64,
  .load .rsi .rbx 72,
  .load .rbp .rbx 80,
  .load .rdx .rbx 88,
  .load .rcx .rbx 96,
  .load .rax .rbx 112,
  .load .rbx .rbx 104]

/-- `vmx_vmlaunch`, up to `vmlaunch`. -/
def vmxVmlaunch : List (Instr Variable Function) :=
  backedUpRegs.map Instr.push ++
  ([Instr.mov .rbx .rdi] ++
  (zeroedArea .xsaveAreaSize .rbp ++
  -- an empty area resets the x87 and vector registers
  ([Instr.xrstor .rsp, .mov .rsp .rbp] ++
  ((Instr.load .rdx .rsi 0 :: setXcr0) ++
  gprLoads))))

/-- What `vmx_vmlaunch` does when `vmlaunch` fails, before `vmx_error_check`. -/
def vmxVmlaunchFailed : List (Instr Variable Function) :=
  [.r15, .r14, .r13, .r12, .rbp, .rbx].map Instr.pop

/-- `vmx_error_check`, for the flags after an instruction and the VM-instruction
error field: the result in EAX. -/
def vmxErrorCheck (cf zf : Bool) (vmInstructionError : BitVec 32) : BitVec 32 :=
  if cf then -1 else if zf then vmInstructionError else 0

/-- The result is `VM_SUCCEED` after a success and never after a failure, whose error
number is not zero. -/
theorem vmxErrorCheck_eq_zero_iff {cf zf : Bool} {vmInstructionError : BitVec 32}
    (herror : vmInstructionError ≠ 0) :
    vmxErrorCheck cf zf vmInstructionError = 0 ↔ cf = false ∧ zf = false := by
  cases cf with
  | true => simp [vmxErrorCheck]
  | false =>
    cases zf with
    | true => simpa [vmxErrorCheck] using herror
    | false => simp [vmxErrorCheck]

/-- XRSTOR from an area of zeros gives the initial state. -/
def Resets (env : Env Variable Function ε) (xcr0 size : Word) (initial : ε) : Prop :=
  ∀ ext memory a, (∀ b, (b - a).toNat < size.toNat → memory b = 0) →
    env.restored xcr0 (-1) memory a ext = some initial

/-- None of the `n` bytes at an address is among the `used` bytes below a stack
pointer. -/
def OffStack (rsp a : Word) (used n : ℕ) : Prop :=
  ∀ b, (b - a).toNat < n → used ≤ (rsp - 1 - b).toNat

/-- The registers are loaded from the structure that RBX points to. -/
theorem run_gprLoads (m : Machine ε) : Runs env gprLoads m fun m' =>
    m' = { m with reg := m'.reg } ∧ gprs m'.reg = regStateAt m.memory (m.reg .rbx) ∧
      m'.reg .rsp = m.reg .rsp := by
  refine ⟨_, rfl, rfl, ?_, ?_⟩
  · simp [gprs, regStateAt, Machine.set, stackSlot]
  · simp [Machine.set]

/-- Freeing the area that resets the extended state. -/
theorem run_resetState {m₁ m₂ : Machine ε} {initial : ε}
    (hsize : (env.var .xsaveAreaSize).toNat < 2 ^ 32)
    (hreset : Resets env m₁.xcr0 (env.var .xsaveAreaSize) initial)
    (hzeroed : Zeroed m₁ m₂ (env.var .xsaveAreaSize) .rbp) :
    Runs env [.xrstor .rsp, .mov .rsp .rbp] m₂ fun m' =>
      m' = { m₂ with reg := Function.update m₂.reg .rsp (m₁.reg .rsp), ext := initial } := by
  have haligned := (@areaBelow_distance (m₁.reg .rsp) (env.var .xsaveAreaSize) (by omega)).1
  rw [← hzeroed.rsp] at haligned
  have hxcr0 : m₂.xcr0 = m₁.xcr0 := by rw [hzeroed.only]
  have hzero : ∀ b, (b - m₂.reg .rsp).toNat < (env.var .xsaveAreaSize).toNat → m₂.memory b = 0 :=
    fun b hb => by
      rw [hzeroed.memory, ← hzeroed.rsp]
      exact fill_apply_of_lt hb
  have hrestored := hreset m₂.ext m₂.memory (m₂.reg .rsp) hzero
  have hstep : step env (.xrstor .rsp) m₂ = some { m₂ with ext := initial } := by
    rw [step, if_pos haligned, hzeroed.mask, hxcr0, hrestored]
    rfl
  refine Runs.cons hstep (Runs.cons rfl (Runs.nil ?_))
  rw [← hzeroed.kept]
  rfl

/-- Making the area leaves alone what lies above it and what is off the stack. -/
theorem launchArea_memory {m₁ m₂ m₃ : Machine ε} (hsize : (env.var .xsaveAreaSize).toNat < 2 ^ 32)
    (hpushed : Pushed m m₁ backedUpRegs) (hrsp : m₂.reg .rsp = m₁.reg .rsp)
    (hmemory : m₂.memory = m₁.memory) (hzeroed : Zeroed m₂ m₃ (env.var .xsaveAreaSize) .rbp) :
    (∀ b, (b - m₁.reg .rsp).toNat < 2 ^ 63 → m₃.memory b = m₁.memory b) ∧
      ∀ b, (env.var .xsaveAreaSize).toNat + 112 ≤ (m.reg .rsp - 1 - b).toNat →
        m₃.memory b = m.memory b := by
  have hbelow := hpushed.rsp
  simp only [backedUpRegs, List.length_cons, List.length_nil, Nat.reduceAdd, Nat.reduceMul] at hbelow
  obtain ⟨_, hroom, hnear⟩ := @areaBelow_distance (m₂.reg .rsp) (env.var .xsaveAreaSize) (by omega)
  rw [hrsp] at hroom hnear
  have hfill : ∀ b, (env.var .xsaveAreaSize).toNat ≤
      (b - areaBelow (m₁.reg .rsp) (env.var .xsaveAreaSize)).toNat → m₃.memory b = m₁.memory b :=
    fun b hb => by
      rw [hzeroed.memory, hrsp, hmemory]
      exact fill_apply_of_le hb
  generalize areaBelow (m₁.reg .rsp) (env.var .xsaveAreaSize) = area at *
  refine ⟨fun b hb => hfill b ?_, fun b hb => (hfill b ?_).trans (hpushed.memory b ?_)⟩
  · simp only [BitVec.toNat_sub] at hb hroom hnear ⊢
    omega
  · rw [hbelow] at hroom hnear
    simp only [BitVec.toNat_sub, BitVec.toNat_ofNat, BitVec.ofNat_eq_ofNat] at hb hroom hnear ⊢
    omega
  · rw [hbelow]
    simp only [backedUpRegs, List.length_cons, List.length_nil, BitVec.toNat_sub,
      BitVec.toNat_ofNat, BitVec.ofNat_eq_ofNat] at hb ⊢
    omega

/-- After a failed launch the backed-up registers and the stack are as before. -/
theorem run_vmlaunchFailed {m₁ : Machine ε} (hpushed : Pushed m m₁ backedUpRegs)
    (hrsp : m'.reg .rsp = m₁.reg .rsp)
    (hmemory : ∀ b, (b - m₁.reg .rsp).toNat < 2 ^ 63 → m'.memory b = m₁.memory b) :
    Runs env vmxVmlaunchFailed m' fun m'' => (∀ r ∈ calleeSaved, m''.reg r = m.reg r) ∧
      ∀ b, (b - m.reg .rsp).toNat < 2 ^ 62 → m''.memory b = m.memory b := by
  have hbelow := hpushed.rsp
  simp only [backedUpRegs, List.length_cons, List.length_nil, Nat.reduceAdd, Nat.reduceMul] at hbelow
  refine (run_pops (by decide) (by decide) m').mono fun m'' hpopped => ⟨?_, fun b hb => ?_⟩
  · have hslot : ∀ j r, backedUpRegs.reverse[j]? = some r → m''.reg r = m.reg r := fun j r hj => by
      have hfew : j < 6 := by
        have hlt := (List.getElem?_eq_some_iff.mp hj).1
        rwa [List.length_reverse] at hlt
      rw [hpopped.slot j r hj, hrsp, ← hpushed.slot j r hj]
      refine readQword_congr fun k hk => hmemory _ ?_
      simp only [stackSlot, BitVec.toNat_sub, BitVec.toNat_add, BitVec.toNat_ofNat]
      omega
    have hrsp'' : m''.reg .rsp = m.reg .rsp := by
      rw [hpopped.rsp, hrsp, hbelow]
      exact BitVec.sub_add_cancel _ _
    intro r hr
    simp only [calleeSaved, List.mem_cons, List.not_mem_nil, or_false] at hr
    rcases hr with rfl | rfl | rfl | rfl | rfl | rfl | rfl
    · exact hslot 5 _ rfl
    · exact hslot 4 _ rfl
    · exact hrsp''
    · exact hslot 3 _ rfl
    · exact hslot 2 _ rfl
    · exact hslot 1 _ rfl
    · exact hslot 0 _ rfl
  · rw [hpopped.only]
    refine (hmemory b ?_).trans (hpushed.memory b ?_)
    all_goals
      rw [hbelow]
      simp only [backedUpRegs, List.length_cons, List.length_nil, BitVec.toNat_sub,
        BitVec.toNat_ofNat] at hb ⊢
      omega

/-- The structure written at an address. -/
def storeRegState (memory : Memory) (a : Word) (reg : VmxVmexitRegState) : Memory :=
  [reg.r15, reg.r14, reg.r13, reg.r12, reg.r11, reg.r10, reg.r9, reg.r8, reg.rdi, reg.rsi, reg.rbp,
    reg.rdx, reg.rcx, reg.rbx, reg.rax].zipIdx.foldl
    (fun memory entry => writeQword memory (stackSlot a entry.2) entry.1) memory

theorem readQword_writeSlot {memory : Memory} {a v : Word} {i j : ℕ} (hi : i < 15) (hj : j < 15)
    (hne : i ≠ j) : readQword (writeQword memory (stackSlot a i) v) (stackSlot a j) =
      readQword memory (stackSlot a j) := by
  refine readQword_congr fun k hk => writeBytes_apply_of_le ?_
  simp only [stackSlot, BitVec.toNat_sub, BitVec.toNat_add, BitVec.toNat_ofNat]
  omega

theorem regStateAt_storeRegState (memory : Memory) (a : Word) (reg : VmxVmexitRegState) :
    regStateAt (storeRegState memory a reg) a = reg := by
  simp only [storeRegState, List.zipIdx_cons, List.zipIdx_nil, List.foldl_cons, List.foldl_nil,
    Nat.reduceAdd, regStateAt]
  simp (disch := decide) only [readQword_writeSlot, readQword_writeQword]

theorem storeRegState_outside {memory : Memory} {a b : Word} {reg : VmxVmexitRegState}
    (h : sizeofRegState ≤ (b - a).toNat) : storeRegState memory a reg b = memory b := by
  have hslot : ∀ (memory : Memory) (j : ℕ) (v : Word), j < 15 →
      writeQword memory (stackSlot a j) v b = memory b := fun memory j v hj => by
    refine writeBytes_apply_of_le ?_
    rw [sizeofRegState] at h
    simp only [stackSlot, BitVec.toNat_sub, BitVec.toNat_add, BitVec.toNat_ofNat] at h ⊢
    omega
  simp only [storeRegState, List.zipIdx_cons, List.zipIdx_nil, List.foldl_cons, List.foldl_nil,
    Nat.reduceAdd]
  simp (disch := decide) only [hslot]

/-- The record of a handled exit where a compiled function leaves it: the registers
at its argument and the permanent state at some address of the heap. -/
def leaveResults (m : Machine Word) (reg : VmxVmexitRegState) (xcr0 : Word) : Machine Word :=
  { m with
    reg := Function.update m.reg .rax 0x10000001000
    memory := storeRegState (writeQword m.memory 0x10000001000 xcr0) (m.reg .rdi) reg }

theorem leaveResults_memory (m : Machine Word) (reg : VmxVmexitRegState) (xcr0 : Word) :
    (leaveResults m reg xcr0).memory =
      storeRegState (writeQword m.memory 0x10000001000 xcr0) (m.reg .rdi) reg := rfl

theorem leaveResults_rax (m : Machine Word) (reg : VmxVmexitRegState) (xcr0 : Word) :
    (leaveResults m reg xcr0).reg .rax = 0x10000001000 := by
  rw [leaveResults]
  dsimp only
  rw [Function.update_self]

/-- A processor whose extended state is one word, and functions that run the models of
the compiled ones. -/
def wordEnv (hw : Hardware) (s : Hv) : Env Variable Function Word where
  var
    | .xsaveHostXcr0 => 7
    | .xsaveAreaSize => 576
  saved _ _ ext memory a := writeQword memory a ext
  restored _ _ memory a _ := some (readQword memory a)
  callee
    | .vmxVmexitHandler, m =>
      match vmxVmexitHandler hw (regStateAt m.memory (m.reg .rdi)) s with
      | .ok (reg, vm) s' => some (leaveResults m reg (s'.vmAt vm).xcr0)
      | .error _ _ => none
    | .interruptsHandler, m => some m

theorem xsaveContract_wordEnv (hw : Hardware) (s : Hv) (xcr0 : Word) :
    XsaveContract (wordEnv hw s) xcr0 576 where
  frame _ _ _ _ hb := writeBytes_apply_of_le ((by decide : 8 ≤ 576).trans hb)
  restored ext _ memory memory' a _ hsame := by
    refine congrArg some ((readQword_congr fun k hk => hsame _ ?_).trans
      (readQword_writeQword memory a ext))
    rw [BitVec.add_comm, BitVec.add_sub_cancel]
    exact hk.trans (by decide)

theorem callsHandler_wordEnv (hw : Hardware) (s : Hv) : CallsHandler (wordEnv hw s) hw s := by
  intro m reg vm s' _ hrdi hnear h
  have hplace : (m.reg .rdi).toNat = 0xffffffffffffff80 := by rw [hrdi]; rfl
  refine ⟨leaveResults m reg (s'.vmAt vm).xcr0, ?_, ⟨fun r hr => ?_, rfl, fun b hb => ?_⟩, ?_, ?_⟩
  · rw [wordEnv]
    dsimp only
    rw [h]
  · refine Function.update_of_ne ?_ _ _
    rintro rfl
    exact absurd hr (by decide)
  · have hstruct : sizeofRegState ≤ (b - m.reg .rdi).toNat := by
      rw [sizeofRegState]
      simp only [BitVec.toNat_sub] at hb hnear ⊢
      omega
    have hheap : 8 ≤ (b - 0x10000001000).toNat := by
      simp only [BitVec.toNat_sub, BitVec.toNat_ofNat, BitVec.ofNat_eq_ofNat] at hb hnear ⊢
      omega
    rw [leaveResults_memory, storeRegState_outside hstruct]
    exact writeBytes_apply_of_le hheap
  · rw [leaveResults_memory, regStateAt_storeRegState]
  · have hheap : ∀ k : Word, k.toNat < 8 → sizeofRegState ≤ (0x10000001000 + k - m.reg .rdi).toNat :=
      fun k hk => by
        rw [sizeofRegState]
        simp only [BitVec.toNat_sub, BitVec.toNat_add, BitVec.toNat_ofNat, BitVec.ofNat_eq_ofNat]
        omega
    rw [leaveResults_memory, leaveResults_rax,
      readQword_congr fun k hk => storeRegState_outside (hheap k hk), readQword_writeQword]

/-- A guest at its exit for an IN of one byte, on the empty stack of the hypervisor. -/
def exitingMachine : Machine Word :=
  ⟨fun r => if r = .rsp then rkhvStackTop else if r = .rax then 0x1234 else 0, fun _ => 0, 5, 3⟩

/-- The exit, if it ends with the low byte of RAX cleared. -/
def inByteRound : HvM Unit := do
  let result ← vmxVmexitHandler obedientHardware (gprs exitingMachine.reg)
  if result.1.rax = 0x1200 then pure () else panicWith "unexpected"

/-- Code that is interrupted by the first vector that is not an exception. -/
theorem isrStub_transparent_first : ∃ m' : Machine Word,
    run (wordEnv obedientHardware (exitingHost inByteExit)) (isrStub 0x20) exitingMachine = some m' ∧
      m'.reg = exitingMachine.reg ∧ m'.ext = 5 := by
  have hreturns : CallsInterruptsHandler (wordEnv obedientHardware (exitingHost inByteExit)) 0x20 :=
    fun m _ _ => ⟨m, rfl, fun _ _ => rfl, rfl, fun _ _ => rfl⟩
  obtain ⟨m', hrun, honly, _⟩ := isrStub_transparent (by decide) hreturns
    (xsaveContract_wordEnv obedientHardware _ exitingMachine.xcr0)
  exact ⟨m', hrun, by rw [honly], by rw [honly]; rfl⟩

/-- The hypervisor before it launches a machine: two structures on its heap, the
first one with RAX set. -/
def launchingMachine : Machine Word :=
  ⟨fun r => if r = .rsp then 0xffffffffffffff00 else if r = .rdi then 0x10000001040 else
    if r = .rsi then 0x100000010b8 else if r = .rbx then 6 else 0,
    writeQword (writeQword (fun _ => 0) 0x100000010b0 9) 0x100000010b8 1, 5, 7⟩

theorem offStack_launchingMachine {a : Word} {used n : ℕ} (ha : a.toNat < 2 ^ 62) (hn : n < 2 ^ 62)
    (hused : used < 2 ^ 62) : OffStack (launchingMachine.reg .rsp) a used n := by
  intro b hb
  have hlast : (launchingMachine.reg .rsp - 1).toNat = 0xfffffffffffffeff := by decide +kernel
  rw [BitVec.toNat_sub, hlast]
  rw [BitVec.toNat_sub] at hb
  omega

end Rkhv.EntryStubs
