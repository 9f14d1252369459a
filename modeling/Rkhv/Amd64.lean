import Rkhv.ByteMemory

/-!
# Straight-line assembly on 64-bit processors

Registers, a byte memory, the extended state and XCR0, and the instructions that
stubs around compiled functions are made of. A fault is no result. What XSAVE and
XRSTOR do with an area, what variables hold and what compiled functions do are
parameters, with what is relied on of them as contracts.
-/

namespace Rkhv.Amd64

open ByteMemory

/-- The general purpose registers. -/
inductive Reg where
  | rax | rbx | rcx | rdx | rsi | rdi | rbp | rsp
  | r8 | r9 | r10 | r11 | r12 | r13 | r14 | r15
  deriving DecidableEq

/-- What a stub works on. `ε` is the extended state: the x87 and vector registers. -/
structure Machine (ε : Type) where
  reg : Reg → Word
  memory : Memory
  ext : ε
  xcr0 : Word

/-- Instructions, for names `ν` of variables and `φ` of compiled functions. Those
with 32 in their name work on the low halves and clear the high half. -/
inductive Instr (ν φ : Type) where
  | push (src : Reg)
  | pop (dst : Reg)
  | mov (dst src : Reg)
  | movImm (dst : Reg) (imm : Word)
  | mov32 (dst src : Reg)
  | load (dst base : Reg) (disp : Word)
  | loadVar (dst : Reg) (var : ν)
  | shr (dst : Reg) (count : ℕ)
  | xor32 (dst src : Reg)
  | not32 (dst : Reg)
  | sub (dst src : Reg)
  | andImm (dst : Reg) (imm : Word)
  | repStosb
  | xsetbv
  | xsave (base : Reg)
  | xrstor (base : Reg)
  | call (callee : φ)

/-- What the instructions take from the processor and from the program around. -/
structure Env (ν φ ε : Type) where
  var : ν → Word
  callee : φ → Machine ε → Option (Machine ε)
  /-- Memory after XSAVE with an XCR0 and a mask to an address. -/
  saved : Word → Word → ε → Memory → Word → Memory
  /-- Extended state after XRSTOR with an XCR0 and a mask from an address; a fault
  for an area that is not well formed. -/
  restored : Word → Word → Memory → Word → ε → Option ε

variable {ν φ ε : Type} {env : Env ν φ ε} {m m' : Machine ε}

/-- Give a register a value. -/
def Machine.set (m : Machine ε) (r : Reg) (v : Word) : Machine ε :=
  { m with reg := Function.update m.reg r v }

/-- The low half of a register, zero-extended. -/
def low32 (v : Word) : Word := (v.setWidth 32).setWidth 64

/-- The register pair EDX:EAX. -/
def Machine.edxEax (m : Machine ε) : Word :=
  (m.reg .rdx).setWidth 32 ++ (m.reg .rax).setWidth 32

/-- One instruction. The direction flag is clear, as the calling convention and the
entry from a guest have it. -/
def step (env : Env ν φ ε) : Instr ν φ → Machine ε → Option (Machine ε)
  | .push src, m => some { m with
      reg := Function.update m.reg .rsp (m.reg .rsp - 8)
      memory := writeQword m.memory (m.reg .rsp - 8) (m.reg src) }
  | .pop dst, m => some { m with
      reg := Function.update (Function.update m.reg .rsp (m.reg .rsp + 8)) dst
        (readQword m.memory (m.reg .rsp)) }
  | .mov dst src, m => some (m.set dst (m.reg src))
  | .movImm dst imm, m => some (m.set dst imm)
  | .mov32 dst src, m => some (m.set dst (low32 (m.reg src)))
  | .load dst base disp, m => some (m.set dst (readQword m.memory (m.reg base + disp)))
  | .loadVar dst var, m => some (m.set dst (env.var var))
  | .shr dst count, m => some (m.set dst (m.reg dst >>> count))
  | .xor32 dst src, m => some (m.set dst (low32 (m.reg dst ^^^ m.reg src)))
  | .not32 dst, m => some (m.set dst (low32 (~~~m.reg dst)))
  | .sub dst src, m => some (m.set dst (m.reg dst - m.reg src))
  | .andImm dst imm, m => some (m.set dst (m.reg dst &&& imm))
  | .repStosb, m => some { m with
      reg := Function.update (Function.update m.reg .rdi (m.reg .rdi + m.reg .rcx)) .rcx 0
      memory := fill m.memory (m.reg .rdi) ((m.reg .rax).setWidth 8) (m.reg .rcx).toNat }
  | .xsetbv, m => if (m.reg .rcx).setWidth 32 = 0#32 then some { m with xcr0 := m.edxEax } else none
  | .xsave base, m => if (m.reg base).toNat % 64 = 0 then
      some { m with memory := env.saved m.xcr0 m.edxEax m.ext m.memory (m.reg base) } else none
  | .xrstor base, m => if (m.reg base).toNat % 64 = 0 then
      (env.restored m.xcr0 m.edxEax m.memory (m.reg base) m.ext).map fun ext => { m with ext } else none
  | .call callee, m => env.callee callee m

/-- Instructions one after the other. -/
def run (env : Env ν φ ε) : List (Instr ν φ) → Machine ε → Option (Machine ε)
  | [], m => some m
  | i :: is, m => (step env i m).bind (run env is)

theorem run_append (is js : List (Instr ν φ)) (m : Machine ε) :
    run env (is ++ js) m = (run env is m).bind (run env js) := by
  induction is generalizing m with
  | nil => rfl
  | cons i is ih =>
    rw [List.cons_append, run, run]
    cases hstep : step env i m with
    | none => rfl
    | some m' => exact ih m'

/-- The instructions run without a fault and leave a machine of which `Q` holds. -/
def Runs (env : Env ν φ ε) (is : List (Instr ν φ)) (m : Machine ε) (Q : Machine ε → Prop) : Prop :=
  ∃ m', run env is m = some m' ∧ Q m'

theorem Runs.append {is js : List (Instr ν φ)} {P Q : Machine ε → Prop} (h : Runs env is m P)
    (hrest : ∀ m', P m' → Runs env js m' Q) : Runs env (is ++ js) m Q := by
  obtain ⟨m₁, hrun, hp⟩ := h
  obtain ⟨m₂, hlast, hq⟩ := hrest m₁ hp
  exact ⟨m₂, by rw [run_append, hrun, Option.bind_some, hlast], hq⟩

theorem Runs.mono {is : List (Instr ν φ)} {P Q : Machine ε → Prop} (h : Runs env is m P)
    (hpq : ∀ m', P m' → Q m') : Runs env is m Q := by
  obtain ⟨m', hrun, hp⟩ := h
  exact ⟨m', hrun, hpq m' hp⟩

theorem Runs.nil {Q : Machine ε → Prop} (h : Q m) : Runs env [] m Q := ⟨m, rfl, h⟩

theorem Runs.cons {i : Instr ν φ} {is : List (Instr ν φ)} {Q : Machine ε → Prop}
    (hstep : step env i m = some m') (hrest : Runs env is m' Q) : Runs env (i :: is) m Q := by
  obtain ⟨m'', hrun, hq⟩ := hrest
  exact ⟨m'', by rw [run, hstep, Option.bind_some, hrun], hq⟩

/-! ## Saved registers -/

/-- The address of a quadword on the stack. -/
def stackSlot (a : Word) (j : ℕ) : Word := a + BitVec.ofNat 64 (8 * j)

theorem stackSlot_zero (a : Word) : stackSlot a 0 = a := BitVec.add_zero a

theorem stackSlot_succ (a : Word) (j : ℕ) : stackSlot (a + 8) j = stackSlot a (j + 1) := by
  apply BitVec.eq_of_toNat_eq
  simp only [stackSlot, BitVec.toNat_add, BitVec.toNat_ofNat, BitVec.ofNat_eq_ofNat]
  omega

theorem stackSlot_sub (a : Word) (n : ℕ) : stackSlot (a - BitVec.ofNat 64 (8 * n)) n = a := by
  rw [stackSlot, BitVec.sub_add_cancel]

/-- Quadwords far enough above an address keep their values with their bytes. -/
theorem readQword_above {memory memory' : Memory} {a : Word} {n j : ℕ} (hj : n ≤ 8 * j)
    (hfew : 8 * j + 8 ≤ 2 ^ 64) (h : ∀ b, n ≤ (b - a).toNat → memory' b = memory b) :
    readQword memory' (stackSlot a j) = readQword memory (stackSlot a j) := by
  refine readQword_congr fun k hk => h _ ?_
  simp only [stackSlot, BitVec.toNat_sub, BitVec.toNat_add, BitVec.toNat_ofNat]
  omega

/-- What pushing registers does. -/
structure Pushed (m m' : Machine ε) (rs : List Reg) : Prop where
  only : m' = { m with reg := m'.reg, memory := m'.memory }
  rsp : m'.reg .rsp = m.reg .rsp - BitVec.ofNat 64 (8 * rs.length)
  reg : ∀ r, r ≠ .rsp → m'.reg r = m.reg r
  /-- The register that was pushed last lies lowest. -/
  slot : ∀ j r, rs.reverse[j]? = some r →
    readQword m'.memory (stackSlot (m'.reg .rsp) j) = m.reg r
  memory : ∀ b, 8 * rs.length ≤ (b - m'.reg .rsp).toNat → m'.memory b = m.memory b

theorem run_pushes {rs : List Reg} (hrsp : .rsp ∉ rs) (hfew : 8 * rs.length < 2 ^ 64)
    (m : Machine ε) : Runs env (rs.map .push) m fun m' => Pushed m m' rs := by
  induction rs generalizing m with
  | nil =>
    refine ⟨m, rfl, rfl, ?_, fun _ _ => rfl, fun _ _ hnone => ?_, fun _ _ => rfl⟩
    · exact (BitVec.sub_zero _).symm
    · cases hnone
  | cons r rs ih =>
    rw [List.mem_cons, not_or] at hrsp
    rw [List.length_cons] at hfew
    have hstep : step env (.push r) m = some { m with
        reg := Function.update m.reg .rsp (m.reg .rsp - 8)
        memory := writeQword m.memory (m.reg .rsp - 8) (m.reg r) } := rfl
    generalize hfirst : { m with
        reg := Function.update m.reg .rsp (m.reg .rsp - 8)
        memory := writeQword m.memory (m.reg .rsp - 8) (m.reg r) } = m₁ at hstep
    have hrsp₁ : m₁.reg .rsp = m.reg .rsp - 8 := by
      rw [← hfirst]
      dsimp only
      rw [Function.update_self]
    have hreg₁ : ∀ r, r ≠ .rsp → m₁.reg r = m.reg r := fun r hr => by
      rw [← hfirst]
      dsimp only
      rw [Function.update_of_ne hr]
    have hmemory₁ : m₁.memory = writeQword m.memory (m₁.reg .rsp) (m.reg r) := by
      rw [hrsp₁, ← hfirst]
    obtain ⟨m', hrun, hrest⟩ := ih hrsp.2 (by omega) m₁
    have hbottom : m₁.reg .rsp = stackSlot (m'.reg .rsp) rs.length := by
      rw [hrest.rsp, stackSlot_sub]
    have hkept : readQword m'.memory (m₁.reg .rsp) = m.reg r := by
      rw [hbottom, readQword_above (Nat.le_refl _) (by omega) hrest.memory, ← hbottom, hmemory₁,
        readQword_writeQword]
    refine ⟨m', ?_, ?_, ?_, fun q hq => ?_, fun j q hj => ?_, fun b hb => ?_⟩
    · rw [List.map_cons, run, hstep]
      exact hrun
    · rw [hrest.only, ← hfirst]
    · rw [hrest.rsp, hrsp₁, List.length_cons]
      apply BitVec.eq_of_toNat_eq
      simp only [BitVec.toNat_sub, BitVec.toNat_ofNat, BitVec.ofNat_eq_ofNat]
      omega
    · rw [hrest.reg q hq, hreg₁ q hq]
    · rw [List.reverse_cons] at hj
      rcases Nat.lt_trichotomy j rs.length with hlt | rfl | hgt
      · rw [List.getElem?_append_left (by rwa [List.length_reverse])] at hj
        rw [hrest.slot j q hj, hreg₁]
        rintro rfl
        exact hrsp.2 (List.mem_reverse.mp (List.mem_of_getElem? hj))
      · rw [List.getElem?_append_right (by rw [List.length_reverse]), List.length_reverse,
          Nat.sub_self] at hj
        cases hj
        rw [← hbottom, hkept]
      · rw [List.getElem?_eq_none (by
          rw [List.length_append, List.length_reverse, List.length_singleton]; omega)] at hj
        cases hj
    · rw [List.length_cons] at hb
      rw [hrest.memory b (by omega), hmemory₁]
      refine writeBytes_apply_of_le ?_
      rw [hrest.rsp] at hb
      simp only [BitVec.toNat_sub, BitVec.toNat_ofNat] at hb ⊢
      omega

/-- What popping registers does. -/
structure Popped (m m' : Machine ε) (rs : List Reg) : Prop where
  only : m' = { m with reg := m'.reg }
  rsp : m'.reg .rsp = m.reg .rsp + BitVec.ofNat 64 (8 * rs.length)
  reg : ∀ r, r ≠ .rsp → r ∉ rs → m'.reg r = m.reg r
  slot : ∀ j r, rs[j]? = some r → m'.reg r = readQword m.memory (stackSlot (m.reg .rsp) j)

theorem run_pops {rs : List Reg} (hrsp : .rsp ∉ rs) (hnodup : rs.Nodup) (m : Machine ε) :
    Runs env (rs.map .pop) m fun m' => Popped m m' rs := by
  induction rs generalizing m with
  | nil =>
    refine ⟨m, rfl, rfl, ?_, fun _ _ _ => rfl, fun _ _ hnone => ?_⟩
    · exact (BitVec.add_zero _).symm
    · cases hnone
  | cons r rs ih =>
    rw [List.mem_cons, not_or] at hrsp
    rw [List.nodup_cons] at hnodup
    have hstep : step env (.pop r) m = some { m with
        reg := Function.update (Function.update m.reg .rsp (m.reg .rsp + 8)) r
          (readQword m.memory (m.reg .rsp)) } := rfl
    generalize hfirst : { m with
        reg := Function.update (Function.update m.reg .rsp (m.reg .rsp + 8)) r
          (readQword m.memory (m.reg .rsp)) } = m₁ at hstep
    have hrsp₁ : m₁.reg .rsp = m.reg .rsp + 8 := by
      rw [← hfirst]
      dsimp only
      rw [Function.update_of_ne hrsp.1, Function.update_self]
    have hself₁ : m₁.reg r = readQword m.memory (m.reg .rsp) := by
      rw [← hfirst]
      dsimp only
      rw [Function.update_self]
    have hreg₁ : ∀ q, q ≠ .rsp → q ≠ r → m₁.reg q = m.reg q := fun q hq hne => by
      rw [← hfirst]
      dsimp only
      rw [Function.update_of_ne hne, Function.update_of_ne hq]
    have hmemory₁ : m₁.memory = m.memory := by rw [← hfirst]
    obtain ⟨m', hrun, hrest⟩ := ih hrsp.2 hnodup.2 m₁
    refine ⟨m', ?_, ?_, ?_, fun q hq hne => ?_, fun j q hj => ?_⟩
    · rw [List.map_cons, run, hstep]
      exact hrun
    · rw [hrest.only, ← hfirst]
    · rw [hrest.rsp, hrsp₁, List.length_cons]
      apply BitVec.eq_of_toNat_eq
      simp only [BitVec.toNat_add, BitVec.toNat_ofNat, BitVec.ofNat_eq_ofNat]
      omega
    · rw [List.mem_cons, not_or] at hne
      rw [hrest.reg q hq hne.2, hreg₁ q hq hne.1]
    · cases j with
      | zero =>
        cases hj
        rw [hrest.reg r (Ne.symm hrsp.1) hnodup.1, hself₁, stackSlot_zero]
      | succ j =>
        rw [List.getElem?_cons_succ] at hj
        rw [hrest.slot j q hj, hmemory₁, hrsp₁, stackSlot_succ]

/-! ## An area for the extended state -/

/-- Make room for an area of the size that a variable holds below the stack, at a
multiple of 64, fill it with zeros and set the mask EDX:EAX to all components. The
stack pointer is kept in a register. -/
def zeroedArea (size : ν) (keep : Reg) : List (Instr ν φ) := [
  .loadVar .rcx size,
  .mov keep .rsp,
  .sub .rsp .rcx,
  .andImm .rsp 0xffffffffffffffc0,
  .xor32 .rax .rax,
  .mov .rdi .rsp,
  .repStosb,
  .not32 .rax,
  .mov32 .rdx .rax]

/-- The address of that area. -/
def areaBelow (rsp size : Word) : Word := (rsp - size) &&& 0xffffffffffffffc0

theorem and_lineMask_toNat (v : Word) :
    (v &&& 0xffffffffffffffc0).toNat = v.toNat / 64 * 64 := by
  have hbits : ∀ i : Fin 64, (0xffffffffffffffc0 : Word).getLsbD i = decide (6 ≤ i.val) := by decide
  have hmask : v &&& (0xffffffffffffffc0 : Word) = (v >>> 6) <<< 6 := by
    apply BitVec.eq_of_getLsbD_eq
    intro i hi
    rw [BitVec.getLsbD_and, hbits ⟨i, hi⟩, BitVec.getLsbD_shiftLeft, BitVec.getLsbD_ushiftRight]
    by_cases h : i < 6
    · simp [h, Nat.not_le.mpr h]
    · simp [h, hi, Nat.not_lt.mp h, Nat.add_sub_cancel' (Nat.not_lt.mp h)]
  have hlt : v.toNat / 64 * 64 < 2 ^ 64 := lt_of_le_of_lt (Nat.div_mul_le_self ..) v.isLt
  rw [hmask, BitVec.toNat_shiftLeft, BitVec.toNat_ushiftRight, Nat.shiftRight_eq_div_pow,
    Nat.shiftLeft_eq, Nat.mod_eq_of_lt hlt]

/-- The area ends below the stack pointer, with less than 64 bytes between. -/
theorem areaBelow_distance {rsp size : Word} (hsize : size.toNat + 64 ≤ 2 ^ 64) :
    (areaBelow rsp size).toNat % 64 = 0 ∧ size.toNat ≤ (rsp - areaBelow rsp size).toNat ∧
      (rsp - areaBelow rsp size).toNat < size.toNat + 64 := by
  have hline := and_lineMask_toNat (rsp - size)
  rw [areaBelow]
  refine ⟨by omega, ?_⟩
  rw [BitVec.toNat_sub, hline, BitVec.toNat_sub]
  omega

/-- What making that area does. -/
structure Zeroed (m m' : Machine ε) (size : Word) (keep : Reg) : Prop where
  only : m' = { m with reg := m'.reg, memory := m'.memory }
  rsp : m'.reg .rsp = areaBelow (m.reg .rsp) size
  kept : m'.reg keep = m.reg .rsp
  mask : m'.edxEax = -1
  reg : ∀ r, r ∉ [.rax, .rcx, .rdx, .rdi, .rsp, keep] → m'.reg r = m.reg r
  memory : m'.memory = fill m.memory (areaBelow (m.reg .rsp) size) 0 size.toNat

theorem run_zeroedArea {size : ν} {keep : Reg} (hkeep : keep ∉ [.rax, .rcx, .rdx, .rdi, .rsp])
    (m : Machine ε) : Runs env (zeroedArea size keep : List (Instr ν φ)) m fun m' =>
      Zeroed m m' (env.var size) keep := by
  simp only [List.mem_cons, List.not_mem_nil, or_false, not_or] at hkeep
  obtain ⟨hrax, hrcx, hrdx, hrdi, hrsp⟩ := hkeep
  refine ⟨_, rfl, rfl, ?_, ?_, ?_, fun r hr => ?_, ?_⟩
  · simp [Machine.set, Function.update_apply, Ne.symm hrsp, Ne.symm hrcx, areaBelow]
  · simp [Machine.set, Function.update_apply, hrax, hrcx, hrdx, hrdi, hrsp]
  · simp [Machine.edxEax, Machine.set, Function.update_apply, low32]
  · simp only [List.mem_cons, List.not_mem_nil, or_false, not_or] at hr
    simp [Machine.set, Function.update_apply, hr]
  · simp [Machine.set, Function.update_apply, Ne.symm hrsp, Ne.symm hrcx, areaBelow, low32]

/-- What is relied on of XSAVE and XRSTOR of all components with an XCR0: XSAVE
writes an area of the given size only, and XRSTOR from an area that was zero when
the state was saved to it gives that state back. -/
structure XsaveContract (env : Env ν φ ε) (xcr0 size : Word) : Prop where
  frame : ∀ ext memory a b, size.toNat ≤ (b - a).toNat →
    env.saved xcr0 (-1) ext memory a b = memory b
  restored : ∀ ext ext' memory memory' a, (∀ b, (b - a).toNat < size.toNat → memory b = 0) →
    (∀ b, (b - a).toNat < size.toNat → memory' b = env.saved xcr0 (-1) ext memory a b) →
    env.restored xcr0 (-1) memory' a ext' = some ext

/-- What saving the extended state to a new area does. -/
structure Saved (env : Env ν φ ε) (m m' : Machine ε) (size : Word) (keep : Reg) : Prop where
  only : m' = { m with reg := m'.reg, memory := m'.memory }
  rsp : m'.reg .rsp = areaBelow (m.reg .rsp) size
  kept : m'.reg keep = m.reg .rsp
  reg : ∀ r, r ∉ [.rax, .rcx, .rdx, .rdi, .rsp, keep] → m'.reg r = m.reg r
  memory : ∀ b, size.toNat ≤ (b - m'.reg .rsp).toNat → m'.memory b = m.memory b
  /-- The state is restored as long as the area is left alone. -/
  restored : ∀ ext' memory', (∀ b, (b - m'.reg .rsp).toNat < size.toNat → memory' b = m'.memory b) →
    env.restored m.xcr0 (-1) memory' (m'.reg .rsp) ext' = some m.ext

theorem run_saveArea {size : ν} {keep : Reg} (hkeep : keep ∉ [.rax, .rcx, .rdx, .rdi, .rsp])
    {m : Machine ε} (hsize : (env.var size).toNat + 64 ≤ 2 ^ 64)
    (hxsave : XsaveContract env m.xcr0 (env.var size)) :
    Runs env (zeroedArea size keep ++ [.xsave .rsp] : List (Instr ν φ)) m fun m' =>
      Saved env m m' (env.var size) keep := by
  obtain ⟨m₁, hrun, hzeroed⟩ := @run_zeroedArea ν φ ε env size keep hkeep m
  have haligned : (m₁.reg .rsp).toNat % 64 = 0 := by
    rw [hzeroed.rsp]
    exact (areaBelow_distance hsize).1
  have hxcr0 : m₁.xcr0 = m.xcr0 := by rw [hzeroed.only]
  have hext : m₁.ext = m.ext := by rw [hzeroed.only]
  refine ⟨{ m₁ with memory := env.saved m.xcr0 (-1) m.ext m₁.memory (m₁.reg .rsp) }, ?_, ?_,
    hzeroed.rsp, hzeroed.kept, hzeroed.reg, fun b hb => ?_, fun ext' memory' hsame => ?_⟩
  · rw [run_append, hrun, Option.bind_some, run, step, if_pos haligned, hzeroed.mask, hxcr0, hext]
    rfl
  · rw [hzeroed.only]
  · dsimp only at hb ⊢
    rw [hxsave.frame _ _ _ _ hb, hzeroed.memory, ← hzeroed.rsp]
    exact fill_apply_of_le hb
  · refine hxsave.restored m.ext ext' m₁.memory memory' _ (fun b hb => ?_) hsame
    rw [hzeroed.memory, ← hzeroed.rsp]
    exact fill_apply_of_lt hb

/-- Set the mask EDX:EAX to all components. -/
def fullMask : List (Instr ν φ) := [
  .xor32 .rax .rax,
  .not32 .rax,
  .mov32 .rdx .rax]

theorem run_fullMask (m : Machine ε) : Runs env (fullMask : List (Instr ν φ)) m fun m' =>
    m' = { m with reg := m'.reg } ∧ m'.edxEax = -1 ∧
    ∀ r, r ∉ [.rax, .rdx] → m'.reg r = m.reg r := by
  refine ⟨_, rfl, rfl, ?_, fun r hr => ?_⟩
  · simp [Machine.edxEax, Machine.set, low32]
  · simp only [List.mem_cons, List.not_mem_nil, or_false, not_or] at hr
    simp [Machine.set, hr]

/-- Restore the extended state from the area at the stack pointer and free the area. -/
def restoreArea (keep : Reg) : List (Instr ν φ) :=
  fullMask ++ [.xrstor .rsp, .mov .rsp keep]

theorem run_restoreArea {keep : Reg} (hkeep : keep ∉ [.rax, .rdx]) {m : Machine ε} {ext : ε}
    (haligned : (m.reg .rsp).toNat % 64 = 0)
    (hrestored : env.restored m.xcr0 (-1) m.memory (m.reg .rsp) m.ext = some ext) :
    Runs env (restoreArea keep : List (Instr ν φ)) m fun m' =>
      m' = { m with reg := m'.reg, ext } ∧ m'.reg .rsp = m.reg keep ∧
      ∀ r, r ∉ [.rax, .rdx, .rsp] → m'.reg r = m.reg r := by
  obtain ⟨m₁, hrun, honly, hmask, hreg⟩ := @run_fullMask ν φ ε env m
  have hrsp : m₁.reg .rsp = m.reg .rsp := hreg _ (by decide)
  have hxcr0 : m₁.xcr0 = m.xcr0 := by rw [honly]
  have hmemory : m₁.memory = m.memory := by rw [honly]
  have hext : m₁.ext = m.ext := by rw [honly]
  refine ⟨{ m₁ with reg := Function.update m₁.reg .rsp (m₁.reg keep), ext }, ?_, ?_, ?_,
    fun r hr => ?_⟩
  · rw [restoreArea, run_append, hrun, Option.bind_some, run, step, hmask, hxcr0, hmemory, hext, hrsp,
      if_pos haligned, hrestored]
    rfl
  · rw [honly]
  · dsimp only
    rw [Function.update_self, hreg keep hkeep]
  · simp only [List.mem_cons, List.not_mem_nil, or_false, not_or] at hr
    dsimp only
    rw [Function.update_of_ne hr.2.2, hreg r]
    simp only [List.mem_cons, List.not_mem_nil, or_false, not_or]
    exact ⟨hr.1, hr.2.1⟩

/-! ## XCR0 -/

/-- Load XCR0 with a register that holds it. -/
def setXcr0 : List (Instr ν φ) := [
  .mov32 .rax .rdx,
  .shr .rdx 32,
  .xor32 .rcx .rcx,
  .xsetbv]

theorem halves_append (v : Word) : (v >>> 32).setWidth 32 ++ (low32 v).setWidth 32 = v := by
  apply BitVec.eq_of_getLsbD_eq
  intro i hi
  simp only [low32, BitVec.getLsbD_append, BitVec.getLsbD_setWidth, BitVec.getLsbD_ushiftRight]
  by_cases h : i < 32
  · simp [h, hi]
  · simp [h, Nat.sub_lt_right_of_lt_add (Nat.not_lt.mp h) hi, Nat.add_sub_cancel' (Nat.not_lt.mp h)]

theorem run_setXcr0 (m : Machine ε) : Runs env (setXcr0 : List (Instr ν φ)) m fun m' =>
    m' = { m with reg := m'.reg, xcr0 := m.reg .rdx } ∧
    ∀ r, r ∉ [.rax, .rcx, .rdx] → m'.reg r = m.reg r := by
  have hvalue := halves_append (m.reg .rdx)
  refine ⟨{ m with
    reg := Function.update (Function.update (Function.update m.reg .rax (low32 (m.reg .rdx))) .rdx
      (m.reg .rdx >>> 32)) .rcx (low32 (m.reg .rcx ^^^ m.reg .rcx))
    xcr0 := m.reg .rdx }, ?_, rfl, fun r hr => ?_⟩
  · simp [setXcr0, run, step, Machine.set, Machine.edxEax, low32] at hvalue ⊢
    exact hvalue
  · simp only [List.mem_cons, List.not_mem_nil, or_false, not_or] at hr
    simp [hr]

/-! ## Compiled functions -/

/-- The registers that a compiled function leaves as they were. -/
def calleeSaved : List Reg := [.rbx, .rbp, .rsp, .r12, .r13, .r14, .r15]

/-- What the calling convention says of a call that returned: those registers are
kept, and so are some bytes of the stack above the stack pointer. -/
structure CReturned (m m' : Machine ε) (kept : ℕ) : Prop where
  reg : ∀ r ∈ calleeSaved, m'.reg r = m.reg r
  xcr0 : m'.xcr0 = m.xcr0
  memory : ∀ b, (b - m.reg .rsp).toNat < kept → m'.memory b = m.memory b

end Rkhv.Amd64
