import Rkhv.NumberStrings

/-!
# The formatter

`str_printf_core` walks over a format with one loop. A percent sign begins a
directive, whose letter may stand behind any number of `z`; every directive with
an argument takes the next one, and its text goes to the string handler. Nothing
looks ahead, so that a format that ends inside a directive is read too far.
-/

namespace Rkhv.Printf

open ByteMemory NumberStrings

/-- A character of the source. -/
def ch (c : Char) : Byte := BitVec.ofNat 8 c.toNat

/-- A string of C without its terminating NUL. -/
structure CString where
  chars : List Byte
  noNul : 0 ∉ chars

/-- How formatting can go wrong. -/
inductive PrintFault where
  /-- A character behind the terminating NUL was read. -/
  | readBehindEnd
  /-- A loop that does not end. -/
  | hang
  deriving DecidableEq

/-- A pointer into a format: the characters up to the NUL, and `none` behind it. -/
abbrev CharPointer := Option (List Byte)

/-- The character that is pointed to. -/
def charAt : CharPointer → Except PrintFault Byte
  | none => .error .readBehindEnd
  | some [] => .ok 0
  | some (c :: _) => .ok c

/-- The pointer to the next character. -/
def nextChar : CharPointer → CharPointer
  | none => none
  | some [] => none
  | some (_ :: rest) => some rest

/-- A call of one of the two handlers; a null pointer has no text. -/
inductive Emission where
  | char (c : Byte)
  | string (text : Option (List Byte))
  deriving DecidableEq

/-- What the formatter finds: the arguments one after the other, the strings that
pointers lead to, and what is left on the stack. -/
structure PrintEnv where
  args : ℕ → Word
  textAt : Word → List Byte
  stack : CharMemory

/-- The variables of the loop and the calls of the handlers. -/
structure PrintState where
  fmt : CharPointer
  readZ : Bool
  taken : ℕ
  out : List Emission

/-- Call a handler. -/
def PrintState.emit (st : PrintState) (e : Emission) : PrintState := { st with out := st.out ++ [e] }

/-- `char buffer[] = "0x????????????????"` -/
def hexBuffer : CharMemory := fun i =>
  ([ch '0', ch 'x'] ++ List.replicate 16 (ch '?') ++ [0]).getD i 0

/-- The text from an index on, in a buffer with the given characters left. -/
def textFrom (m : CharMemory) (start : ℕ) : ℕ → List Byte
  | 0 => []
  | left + 1 => if m start = 0 then [] else m start :: textFrom m (start + 1) left

/-- The digits that a length of `%x` stands for. -/
def hexLength (lenChar : Byte) : Word :=
  if lenChar = ch 'b' then 2
  else if lenChar = ch 'w' then 4
  else if lenChar = ch 'd' then 8
  else if lenChar = ch 'q' then 16
  else 16

/-- The text of `%p`. -/
def pointerText (value : Word) : List Byte := textFrom (strItoh hexBuffer 2 value 16).1 0 19

/-- The text of `%u`. -/
def decimalText (stack : CharMemory) (value : Word) : List Byte :=
  let (buffer, start) := strUtoa stack 0 value 31
  textFrom (Function.update buffer 31 0) start (32 - start)

/-- The text of `%x`; the pointer is null when `str_itoh` returned null. -/
def hexText (value : Word) (prefixedChar lenChar : Byte) : Option (List Byte) :=
  let len := hexLength lenChar
  let (buffer, trimmedStart) := strItoh (Function.update hexBuffer (len + 2).toNat 0) 2 value len
  let start :=
    if prefixedChar = ch 't' then trimmedStart else if prefixedChar = ch 'p' then some 0 else some 2
  start.map fun start => textFrom buffer start (19 - start)

/-- The cases of a directive, behind its letter. -/
def directive (env : PrintEnv) (type : Byte) (st : PrintState) : Except PrintFault PrintState :=
  let value := env.args st.taken
  let st' := { st with taken := st.taken + 1 }
  if type = ch 's' then .ok (st'.emit (.string (env.textAt value)))
  else if type = ch 'p' then .ok (st'.emit (.string (pointerText value)))
  else if type = ch 'u' then .ok (st'.emit (.string (decimalText env.stack value)))
  else if type = ch 'x' then do
    let prefixedChar ← charAt st.fmt
    let lenChar ← charAt (nextChar st.fmt)
    return { st' with fmt := nextChar (nextChar st.fmt) }.emit
      (.string (hexText value prefixedChar lenChar))
  else if type = ch 'z' then .ok { st with readZ := true }
  else .ok (st.emit (.char type))

/-- The body of the loop at a character. -/
def printfBody (env : PrintEnv) (c : Byte) (st : PrintState) : Except PrintFault PrintState :=
  if c ≠ ch '%' ∧ st.readZ = false then .ok { st.emit (.char c) with fmt := nextChar st.fmt }
  else do
    let fmt := if st.readZ = false then nextChar st.fmt else st.fmt
    let type ← charAt fmt
    directive env type { st with fmt := nextChar fmt, readZ := false }

/-- The loop with a bound on its rounds. -/
def printfLoop (env : PrintEnv) : ℕ → PrintState → Except PrintFault PrintState
  | 0, _ => .error .hang
  | rounds + 1, st => do
    let c ← charAt st.fmt
    if c = 0 then return st
    let st' ← printfBody env c st
    printfLoop env rounds st'

/-- `str_printf_core`; every round of its loop passes a character. -/
def strPrintfCore (env : PrintEnv) (fmt : CString) : Except PrintFault PrintState :=
  printfLoop env (fmt.chars.length + 1) { fmt := some fmt.chars, readZ := false, taken := 0, out := [] }

/-! ## Formats that end outside of directives -/

/-- Where in a format a character stands. -/
inductive Place where
  | text
  | directive
  | flag
  | hexForm
  | hexLength
  deriving DecidableEq

/-- Whether a format that is entered at a place ends between two pieces, or behind a `z`. -/
def complete : Place → List Byte → Bool
  | .text, [] => true
  | .flag, [] => true
  | .directive, [] => false
  | .hexForm, [] => false
  | .hexLength, [] => false
  | .text, c :: rest => if c = ch '%' then complete .directive rest else complete .text rest
  | .hexForm, _ :: rest => complete .hexLength rest
  | .hexLength, _ :: rest => complete .text rest
  | .directive, c :: rest =>
    if c = ch 'x' then complete .hexForm rest
    else if c = ch 'z' then complete .flag rest
    else complete .text rest
  | .flag, c :: rest =>
    if c = ch 'x' then complete .hexForm rest
    else if c = ch 'z' then complete .flag rest
    else complete .text rest

/-- The outcome of a loop: it ends, or reads behind the end. -/
def EndsIf (whole : Bool) (r : Except PrintFault PrintState) : Prop :=
  if whole then ∃ st, r = .ok st else r = .error .readBehindEnd

variable {env : PrintEnv} {rounds : ℕ} {rest : List Byte} {st : PrintState}

/-- Behind the NUL the loop reads too far. -/
theorem printfLoop_behind (hfmt : st.fmt = none) (hrounds : 0 < rounds) :
    printfLoop env rounds st = .error .readBehindEnd := by
  cases rounds with
  | zero => exact absurd hrounds (lt_irrefl 0)
  | succ rounds =>
    rw [printfLoop, hfmt]
    rfl

/-- At the NUL the loop ends. -/
theorem printfLoop_end (hfmt : st.fmt = some []) (hrounds : 0 < rounds) :
    printfLoop env rounds st = .ok st := by
  cases rounds with
  | zero => exact absurd hrounds (lt_irrefl 0)
  | succ rounds =>
    rw [printfLoop, hfmt]
    rfl

/-- One round at a character. -/
theorem printfLoop_cons {c : Byte} (hfmt : st.fmt = some (c :: rest)) (hc : c ≠ 0) :
    printfLoop env (rounds + 1) st = printfBody env c st >>= printfLoop env rounds := by
  rw [printfLoop, hfmt]
  exact if_neg hc

/-- The place of a loop between two rounds. -/
def placeOf (st : PrintState) : Place := if st.readZ then .flag else .text

theorem placeOf_flag (h : st.readZ = true) : placeOf st = .flag := by
  rw [placeOf, h]
  rfl

theorem placeOf_text (h : st.readZ = false) : placeOf st = .text := by
  rw [placeOf, h]
  rfl

/-- A plain character goes to its handler. -/
theorem printfBody_char {c : Byte} (hc : c ≠ ch '%') (hz : st.readZ = false) :
    printfBody env c st = .ok { st.emit (.char c) with fmt := nextChar st.fmt } :=
  if_pos ⟨hc, hz⟩

/-- A percent sign is skipped. -/
theorem printfBody_percent (hz : st.readZ = false) :
    printfBody env (ch '%') st = charAt (nextChar st.fmt) >>= fun type =>
      directive env type { st with fmt := nextChar (nextChar st.fmt), readZ := false } := by
  rw [printfBody, if_neg (fun h => h.1 rfl), if_pos hz]

/-- Behind a `z` the character itself is the letter. -/
theorem printfBody_flag {c : Byte} (hz : st.readZ = true) :
    printfBody env c st = charAt st.fmt >>= fun type =>
      directive env type { st with fmt := nextChar st.fmt, readZ := false } := by
  have hset : ¬st.readZ = false := by
    rw [hz]
    exact Bool.noConfusion
  rw [printfBody, if_neg (fun h => hset h.2), if_neg hset]

/-- Every directive but two goes on behind its letter. -/
theorem directive_simple {type : Byte} (hx : type ≠ ch 'x') (hz : type ≠ ch 'z')
    (env : PrintEnv) (st : PrintState) :
    ∃ st', directive env type st = .ok st' ∧ st'.fmt = st.fmt ∧ st'.readZ = st.readZ := by
  rw [directive]
  by_cases hs : type = ch 's'
  · exact ⟨_, if_pos hs, rfl, rfl⟩
  rw [if_neg hs]
  by_cases hp : type = ch 'p'
  · exact ⟨_, if_pos hp, rfl, rfl⟩
  rw [if_neg hp]
  by_cases hu : type = ch 'u'
  · exact ⟨_, if_pos hu, rfl, rfl⟩
  rw [if_neg hu, if_neg hx, if_neg hz]
  exact ⟨_, rfl, rfl, rfl⟩

/-- A `z` goes on with the flag set. -/
theorem directive_z (env : PrintEnv) (st : PrintState) :
    directive env (ch 'z') st = .ok { st with readZ := true } := rfl

/-- An `x` takes two characters and a value. -/
theorem directive_x (env : PrintEnv) (st : PrintState) :
    directive env (ch 'x') st = charAt st.fmt >>= fun prefixedChar =>
      charAt (nextChar st.fmt) >>= fun lenChar =>
        .ok (PrintState.emit { st with
          taken := st.taken + 1
          fmt := nextChar (nextChar st.fmt) }
          (.string (hexText (env.args st.taken) prefixedChar lenChar))) := rfl

/-- What comes behind the letter of a directive ends as the format says. -/
theorem directive_ends {type : Byte}
    (ih : ∀ rest, rest.length < rounds → 0 ∉ rest → ∀ st : PrintState, st.fmt = some rest →
      EndsIf (complete (placeOf st) rest) (printfLoop env rounds st))
    (hlen : rest.length < rounds) (hnul : 0 ∉ rest) (hfmt : st.fmt = some rest)
    (hz : st.readZ = false) :
    EndsIf (complete .flag (type :: rest)) (directive env type st >>= printfLoop env rounds) := by
  have hrounds : 0 < rounds := Nat.zero_lt_of_lt hlen
  rw [complete]
  by_cases hx : type = ch 'x'
  · rw [if_pos hx, hx, directive_x, hfmt]
    cases rest with
    | nil => rfl
    | cons p rest =>
      cases rest with
      | nil => exact printfLoop_behind rfl hrounds
      | cons l rest =>
        have hshort : rest.length < rounds := by
          rw [List.length_cons, List.length_cons] at hlen
          omega
        have hrest : 0 ∉ rest := fun h =>
          hnul (List.mem_cons_of_mem p (List.mem_cons_of_mem l h))
        have hgoes := ih rest hshort hrest (PrintState.emit { st with
          taken := st.taken + 1
          fmt := some rest } (.string (hexText (env.args st.taken) p l))) rfl
        rw [placeOf_text (by exact hz)] at hgoes
        exact hgoes
  rw [if_neg hx]
  by_cases hflag : type = ch 'z'
  · rw [if_pos hflag, hflag, directive_z]
    exact ih rest hlen hnul { st with readZ := true } hfmt
  · rw [if_neg hflag]
    obtain ⟨st', hst', hfmt', hz'⟩ := directive_simple hx hflag env st
    rw [hst']
    have hgoes := ih rest hlen hnul st' (hfmt'.trans hfmt)
    rw [placeOf_text (hz'.trans hz)] at hgoes
    exact hgoes

/-- With enough rounds the loop ends, or reads behind the end of a format that stops
inside a directive. -/
theorem printfLoop_ends (rounds : ℕ) (rest : List Byte) (hlen : rest.length < rounds)
    (hnul : 0 ∉ rest) (st : PrintState) (hfmt : st.fmt = some rest) :
    EndsIf (complete (placeOf st) rest) (printfLoop env rounds st) := by
  induction rounds generalizing rest st with
  | zero => exact absurd hlen (Nat.not_lt_zero _)
  | succ rounds ih =>
    cases rest with
    | nil =>
      have hdone : complete (placeOf st) [] = true := by
        rw [placeOf]
        cases st.readZ <;> rfl
      rw [hdone]
      exact ⟨st, printfLoop_end hfmt (Nat.succ_pos rounds)⟩
    | cons c rest =>
      obtain ⟨hc, hrest⟩ := not_or.mp (mt List.mem_cons.mpr hnul)
      have hshort := Nat.lt_of_succ_lt_succ hlen
      rw [printfLoop_cons hfmt (Ne.symm hc)]
      cases hz : st.readZ with
      | true =>
        rw [placeOf_flag hz, printfBody_flag hz, hfmt]
        exact @directive_ends env rounds rest { st with fmt := some rest, readZ := false } c ih
          hshort hrest rfl rfl
      | false =>
        rw [placeOf_text hz, complete]
        by_cases hpercent : c = ch '%'
        · rw [if_pos hpercent, hpercent, printfBody_percent hz, hfmt]
          cases rest with
          | nil => exact printfLoop_behind rfl hshort
          | cons type rest =>
            have hbehind := (not_or.mp (mt List.mem_cons.mpr hrest)).2
            exact @directive_ends env rounds rest { st with fmt := some rest, readZ := false } type
              ih (Nat.lt_of_succ_lt hshort) hbehind rfl rfl
        · rw [if_neg hpercent, printfBody_char hpercent hz, hfmt]
          have hgoes := ih rest hshort hrest { st.emit (.char c) with fmt := some rest } rfl
          rw [placeOf_text (by exact hz)] at hgoes
          exact hgoes

/-- The formatter ends without a read behind the terminating NUL exactly when the format
stops outside of a directive, and otherwise makes such a read; it always ends. -/
theorem strPrintfCore_reads (env : PrintEnv) (fmt : CString) :
    strPrintfCore env fmt ≠ .error .hang ∧
      (strPrintfCore env fmt ≠ .error .readBehindEnd ↔ complete .text fmt.chars = true) := by
  have hends := @printfLoop_ends env (fmt.chars.length + 1) fmt.chars (Nat.lt_succ_self _) fmt.noNul
    { fmt := some fmt.chars, readZ := false, taken := 0, out := [] } rfl
  rw [placeOf_text rfl, ← strPrintfCore] at hends
  cases hcomplete : complete .text fmt.chars with
  | true =>
    rw [hcomplete] at hends
    obtain ⟨st, hst⟩ := hends
    rw [hst]
    exact ⟨fun h => (by cases h), fun _ => rfl, fun _ h => (by cases h)⟩
  | false =>
    rw [hcomplete] at hends
    have hread : strPrintfCore env fmt = .error .readBehindEnd := hends
    rw [hread]
    exact ⟨fun h => (by cases h), fun h => absurd rfl h, fun h => (by cases h)⟩

/-- A format that ends in a percent sign is read too far. -/
theorem percent_reads_behind : strPrintfCore ⟨fun _ => 0, fun _ => [], fun _ => 0⟩
    ⟨[ch '%'], by decide⟩ = .error .readBehindEnd := rfl

end Rkhv.Printf
