import Rkhv.Printf

/-!
# The language of the formatter

A format is a sequence of pieces: plain characters and directives, of which all
but `%%` take an argument. For every sequence of pieces the formatter calls a
handler once for each, in order and with the text of the piece, takes the
arguments of the pieces one by one and stops at the terminating NUL.
-/

namespace Rkhv.PrintfLanguage

open ByteMemory Numerals NumberStrings Printf

/-! ## Pieces -/

/-- The first flag of `%x`. -/
inductive HexForm where
  | prefixed
  | unprefixed
  | trimmed
  deriving DecidableEq

/-- The second flag of `%x`. -/
inductive HexWidth where
  | byte
  | word
  | dword
  | qword
  deriving DecidableEq

/-- The character of a form. -/
def HexForm.letter : HexForm → Byte
  | prefixed => ch 'p'
  | unprefixed => ch 'u'
  | trimmed => ch 't'

/-- The character of a width. -/
def HexWidth.letter : HexWidth → Byte
  | byte => ch 'b'
  | word => ch 'w'
  | dword => ch 'd'
  | qword => ch 'q'

/-- The hexadecimal digits of a width. -/
def HexWidth.digits : HexWidth → ℕ
  | byte => 2
  | word => 4
  | dword => 8
  | qword => 16

/-- A directive, with its argument. -/
inductive Directive where
  | percent
  | string (address : Word)
  | pointer (value : Word)
  | unsigned (value : Word)
  | hex (form : HexForm) (width : HexWidth) (value : Word)
      (fits : form = .trimmed → value.toNat < 16 ^ width.digits)

/-- A plain character, or a directive behind any number of `z`. -/
inductive Piece where
  | plain (c : Byte) (noNul : c ≠ 0) (noPercent : c ≠ ch '%')
  | directive (zs : ℕ) (d : Directive)

/-- The letter of a directive. -/
def Directive.letter : Directive → Byte
  | .percent => ch '%'
  | .string _ => ch 's'
  | .pointer _ => ch 'p'
  | .unsigned _ => ch 'u'
  | .hex .. => ch 'x'

/-- What stands behind the letter of a directive. -/
def Directive.flags : Directive → List Byte
  | .hex form width _ _ => [form.letter, width.letter]
  | _ => []

/-- The arguments of a directive. -/
def Directive.arguments : Directive → List Word
  | .percent => []
  | .string address => [address]
  | .pointer value => [value]
  | .unsigned value => [value]
  | .hex _ _ value _ => [value]

/-- A number in hexadecimal, with a fixed number of digits. -/
def hexDigits (digits : ℕ) (value : Word) : List Byte := (padded 16 digits value.toNat).map digitByte

/-- What a directive stands for. -/
def Directive.rendering (textAt : Word → List Byte) : Directive → Emission
  | .percent => .char (ch '%')
  | .string address => .string (some (textAt address))
  | .pointer value => .string (some (ch '0' :: ch 'x' :: hexDigits 16 value))
  | .unsigned value => .string (some ((numeral 10 value.toNat).map digitByte))
  | .hex .prefixed width value _ => .string (some (ch '0' :: ch 'x' :: hexDigits width.digits value))
  | .hex .unprefixed width value _ => .string (some (hexDigits width.digits value))
  | .hex .trimmed _ value _ => .string (some ((numeral 16 value.toNat).map digitByte))

/-- The characters of a piece in a format. -/
def Piece.format : Piece → List Byte
  | plain c _ _ => [c]
  | directive zs d => ch '%' :: (List.replicate zs (ch 'z') ++ d.letter :: d.flags)

/-- The arguments of a piece. -/
def Piece.arguments : Piece → List Word
  | plain _ _ _ => []
  | directive _ d => d.arguments

/-- What a piece stands for. -/
def Piece.rendering (textAt : Word → List Byte) : Piece → Emission
  | plain c _ _ => .char c
  | directive _ d => d.rendering textAt

/-! ## Texts in buffers -/

variable {m stack : CharMemory} {start left : ℕ} {text : List Byte} {value : Word}

theorem charsFrom_succ_left (m : CharMemory) (start n : ℕ) :
    charsFrom m start (n + 1) = m start :: charsFrom m (start + 1) n := by
  rw [Nat.add_comm n 1, charsFrom_append]
  rfl

/-- The text of a buffer ends at its NUL. -/
theorem textFrom_eq (hchars : charsFrom m start text.length = text) (hnul : 0 ∉ text)
    (hend : m (start + text.length) = 0) (hleft : text.length < left) :
    textFrom m start left = text := by
  induction text generalizing start left with
  | nil =>
    cases left with
    | zero => exact absurd hleft (Nat.not_lt_zero _)
    | succ left => exact if_pos hend
  | cons c text ih =>
    cases left with
    | zero => exact absurd hleft (Nat.not_lt_zero _)
    | succ left =>
      rw [List.length_cons, charsFrom_succ_left] at hchars
      obtain ⟨hc, hrest⟩ := List.cons.inj hchars
      obtain ⟨hnonzero, hnul⟩ := not_or.mp (mt List.mem_cons.mpr hnul)
      have hnext := ih hrest hnul (by rw [← hend, List.length_cons]; congr 1; omega)
        (Nat.lt_of_succ_lt_succ hleft)
      rw [textFrom, hc, if_neg (Ne.symm hnonzero), hnext]

/-- Digits are no NULs. -/
theorem nul_not_mem_digits {digits : List ℕ} (h : ∀ d ∈ digits, d < 16) :
    0 ∉ digits.map digitByte := by
  intro hmem
  obtain ⟨d, hd, hzero⟩ := List.mem_map.mp hmem
  exact digitByte_ne_zero (h d hd) hzero

theorem nul_not_mem_hexDigits (digits : ℕ) (value : Word) : 0 ∉ hexDigits digits value :=
  nul_not_mem_digits fun _ hd => lt_of_mem_padded (by decide) hd

theorem length_hexDigits (digits : ℕ) (value : Word) : (hexDigits digits value).length = digits := by
  rw [hexDigits, List.length_map, length_padded]

/-- The buffer of a hexadecimal number, once its digits are written. -/
structure HexFilled (m : CharMemory) (digits : ℕ) (value : Word) : Prop where
  zero : m 0 = ch '0'
  x : m 1 = ch 'x'
  number : charsFrom m 2 digits = hexDigits digits value
  nul : m (2 + digits) = 0

/-- With its prefix the number is read from the start. -/
theorem HexFilled.prefixed {digits : ℕ} (h : HexFilled m digits value)
    (hleft : 2 + digits < left) :
    textFrom m 0 left = ch '0' :: ch 'x' :: hexDigits digits value := by
  have hlen : (ch '0' :: ch 'x' :: hexDigits digits value).length = 2 + digits := by
    rw [List.length_cons, List.length_cons, length_hexDigits]
    omega
  refine textFrom_eq ?_ ?_ ?_ (by omega)
  · rw [hlen, charsFrom_append, Nat.zero_add, h.number, charsFrom_succ_left, charsFrom_succ_left,
      h.zero, Nat.zero_add, h.x]
    rfl
  · intro hmem
    cases List.mem_cons.mp hmem with
    | inl hzero => exact absurd hzero (by decide)
    | inr hmem =>
      cases List.mem_cons.mp hmem with
      | inl hx => exact absurd hx (by decide)
      | inr hmem => exact nul_not_mem_hexDigits digits value hmem
  · rw [hlen, Nat.zero_add]
    exact h.nul

/-- Without its prefix the number is read from its first digit. -/
theorem HexFilled.unprefixed {digits : ℕ} (h : HexFilled m digits value) (hleft : digits < left) :
    textFrom m 2 left = hexDigits digits value := by
  refine textFrom_eq ?_ (nul_not_mem_hexDigits digits value) ?_ (by rw [length_hexDigits]; exact hleft)
  · rw [length_hexDigits]
    exact h.number
  · rw [length_hexDigits]
    exact h.nul

/-- Without leading zeros the number is read from its first digit that matters. -/
theorem HexFilled.trimmed {digits : ℕ} (h : HexFilled m digits value)
    (hfits : (numeral 16 value.toNat).length ≤ digits)
    (hleft : (numeral 16 value.toNat).length < left) :
    textFrom m (2 + (digits - (numeral 16 value.toNat).length)) left =
      (numeral 16 value.toNat).map digitByte := by
  have hsplit : digits = digits - (numeral 16 value.toNat).length +
      (numeral 16 value.toNat).length := by omega
  have hdigits := h.number
  rw [hexDigits, padded_eq (by decide) hfits, List.map_append] at hdigits
  have hparts : charsFrom m 2 (digits - (numeral 16 value.toNat).length) ++
      charsFrom m (2 + (digits - (numeral 16 value.toNat).length)) (numeral 16 value.toNat).length =
      charsFrom m 2 digits := by
    rw [← charsFrom_append, ← hsplit]
  rw [← hparts] at hdigits
  have htail := (List.append_inj hdigits (by
    rw [charsFrom, List.length_map, List.length_range, List.length_map, List.length_replicate])).2
  refine textFrom_eq ?_ (nul_not_mem_digits fun _ hd => lt_of_mem_numeral (by decide) hd) ?_ ?_
  · rw [List.length_map]
    exact htail
  · rw [List.length_map, ← h.nul]
    congr 1
    omega
  · rw [List.length_map]
    exact hleft

/-- `str_itoh` fills the digits of a buffer that is terminated behind them. -/
theorem hexFilled_itoh {digits : ℕ} {trimmed : Option ℕ} (hzero : m 0 = ch '0') (hx : m 1 = ch 'x')
    (hnul : m (2 + digits) = 0) : HexFilled (itohLoop 2 m value trimmed digits).1 digits value where
  zero := (itohLoop_outside (Or.inl (by decide))).trans hzero
  x := (itohLoop_outside (Or.inl (by decide))).trans hx
  number := itohLoop_charsFrom
  nul := (itohLoop_outside (Or.inr (Nat.le_refl _))).trans hnul

/-- The text of `%p` -/
theorem pointerText_eq (value : Word) :
    pointerText value = ch '0' :: ch 'x' :: hexDigits 16 value :=
  (@hexFilled_itoh hexBuffer value 16 none rfl rfl rfl).prefixed (by decide)

/-- The text of `%u` -/
theorem decimalText_eq (stack : CharMemory) (value : Word) :
    decimalText stack value = (numeral 10 value.toNat).map digitByte := by
  have hshort : (numeral 10 value.toNat).length ≤ 20 :=
    (length_numeral_le_iff (by decide) (by decide)).mpr (value.isLt.trans (by decide))
  have hpos : 0 < (numeral 10 value.toNat).length := length_numeral_pos (by decide)
  obtain ⟨hstart, hdigits⟩ := @utoaLoop_charsFrom stack 0 30 value (hshort.trans (by decide))
  rw [Nat.zero_add] at hstart
  rw [decimalText, strUtoa, show ((31 - 1 : Word)).toNat = 30 from rfl]
  dsimp only
  rw [hstart] at hdigits ⊢
  refine textFrom_eq ?_ (nul_not_mem_digits fun _ hd =>
    (lt_of_mem_numeral (by decide) hd).trans (by decide)) ?_ ?_
  · rw [List.length_map, ← hdigits]
    refine charsFrom_congr fun i hi => Function.update_of_ne ?_ _ _
    omega
  · rw [List.length_map]
    have hend : 30 + 1 - (numeral 10 value.toNat).length + (numeral 10 value.toNat).length = 31 := by
      omega
    rw [hend, Function.update_self]
  · rw [List.length_map]
    omega

/-- `%x` writes the digits of its width. -/
theorem hexText_letters (value : Word) (form : HexForm) (width : HexWidth) :
    hexText value form.letter width.letter =
      (match form with
        | .prefixed => some 0
        | .unprefixed => some 2
        | .trimmed => (itohLoop 2 (Function.update hexBuffer (2 + width.digits) 0) value none
            width.digits).2).map fun start =>
        textFrom (itohLoop 2 (Function.update hexBuffer (2 + width.digits) 0) value none
          width.digits).1 start (19 - start) := by
  cases form <;> cases width <;> rfl

/-- The text of `%x` -/
theorem hexText_eq (form : HexForm) (width : HexWidth) (value : Word)
    (hfits : form = .trimmed → value.toNat < 16 ^ width.digits) (textAt : Word → List Byte) :
    Emission.string (hexText value form.letter width.letter) =
      (Directive.hex form width value hfits).rendering textAt := by
  have hdigits : 0 < width.digits ∧ width.digits ≤ 16 := by cases width <;> decide
  obtain ⟨hpos, hle⟩ := hdigits
  have hother : ∀ i, i ≠ 2 + width.digits →
      Function.update hexBuffer (2 + width.digits) 0 i = hexBuffer i := fun i hi =>
    Function.update_of_ne hi _ _
  have hfilled := @hexFilled_itoh (Function.update hexBuffer (2 + width.digits) 0) value width.digits
    none (hother 0 (by omega)) (hother 1 (by omega)) (Function.update_self ..)
  rw [hexText_letters]
  generalize hloop : itohLoop 2 (Function.update hexBuffer (2 + width.digits) 0) value none
    width.digits = written at hfilled
  cases form with
  | prefixed => exact congrArg (fun text => Emission.string (some text)) (hfilled.prefixed (by omega))
  | unprefixed => exact congrArg (fun text => Emission.string (some text)) (hfilled.unprefixed (by omega))
  | trimmed =>
    have hshort := (length_numeral_le_iff (by decide) hpos).mpr (hfits rfl)
    have hstart := @itohLoop_trimmed (Function.update hexBuffer (2 + width.digits) 0) 2
      width.digits value
    rw [hloop, if_pos hshort] at hstart
    dsimp only
    rw [hstart]
    have hnumeral := @length_numeral_pos 16 value.toNat (by decide)
    exact congrArg (fun text => Emission.string (some text)) (hfilled.trimmed hshort (by omega))

/-! ## Whole formats -/

/-- The characters of a sequence of pieces. -/
def formatOf (pieces : List Piece) : List Byte := pieces.flatMap Piece.format

/-- The arguments of a sequence of pieces. -/
def argumentsOf (pieces : List Piece) : List Word := pieces.flatMap Piece.arguments

/-- The arguments of a call, followed by whatever `va_arg` finds behind them. -/
def withArguments (arguments : List Word) (behind : ℕ → Word) : ℕ → Word := fun i =>
  arguments.getD i (behind i)

variable {env : PrintEnv} {rounds taken : ℕ} {rest : List Byte} {out : List Emission}

theorem HexForm.letter_ne_zero (form : HexForm) : form.letter ≠ 0 := by cases form <;> decide

theorem HexWidth.letter_ne_zero (width : HexWidth) : width.letter ≠ 0 := by cases width <;> decide

theorem Directive.letter_ne_zero (d : Directive) : d.letter ≠ 0 := by
  cases d with
  | percent => exact show ch '%' ≠ 0 by decide
  | string _ => exact show ch 's' ≠ 0 by decide
  | pointer _ => exact show ch 'p' ≠ 0 by decide
  | unsigned _ => exact show ch 'u' ≠ 0 by decide
  | hex _ _ _ _ => exact show ch 'x' ≠ 0 by decide

theorem Directive.nul_not_mem_flags (d : Directive) : 0 ∉ d.flags := by
  cases d with
  | hex form width _ _ =>
    intro hmem
    cases List.mem_cons.mp hmem with
    | inl hform => exact form.letter_ne_zero hform.symm
    | inr hwidth => exact width.letter_ne_zero (List.mem_singleton.mp hwidth).symm
  | percent => exact List.not_mem_nil
  | string _ => exact List.not_mem_nil
  | pointer _ => exact List.not_mem_nil
  | unsigned _ => exact List.not_mem_nil

/-- A directive takes at most one argument. -/
theorem Directive.arguments_eq {d : Directive} (h : value ∈ d.arguments) : d.arguments = [value] := by
  cases d with
  | percent => cases h
  | string _ => rw [List.mem_singleton.mp h]; rfl
  | pointer _ => rw [List.mem_singleton.mp h]; rfl
  | unsigned _ => rw [List.mem_singleton.mp h]; rfl
  | hex _ _ _ _ => rw [List.mem_singleton.mp h]; rfl

theorem Piece.arguments_eq {p : Piece} (h : value ∈ p.arguments) : p.arguments = [value] := by
  cases p with
  | plain _ _ _ => cases h
  | directive _ d => exact Directive.arguments_eq h

/-- No character of a piece is a NUL. -/
theorem Piece.noNul (p : Piece) : 0 ∉ p.format := by
  cases p with
  | plain c hc _ => exact fun h => hc (List.mem_singleton.mp h).symm
  | directive zs d =>
    intro hmem
    cases List.mem_cons.mp hmem with
    | inl hpercent => exact absurd hpercent (by decide)
    | inr hmem =>
      cases List.mem_append.mp hmem with
      | inl hz => exact absurd (List.eq_of_mem_replicate hz) (by decide)
      | inr hmem =>
        cases List.mem_cons.mp hmem with
        | inl h => exact d.letter_ne_zero h.symm
        | inr h => exact d.nul_not_mem_flags h

/-- The format of a sequence of pieces is a string. -/
def formatString (pieces : List Piece) : CString where
  chars := formatOf pieces
  noNul h := by
    obtain ⟨p, _, hp⟩ := List.mem_flatMap.mp h
    exact p.noNul hp

/-- Behind its `z`s a directive is taken by its letter. -/
theorem printfLoop_flags (zs : ℕ) {type : Byte} (htype : type ≠ 0) :
    printfLoop env (rounds + 1 + zs)
        ⟨some (List.replicate zs (ch 'z') ++ type :: rest), true, taken, out⟩ =
      directive env type ⟨some rest, false, taken, out⟩ >>= printfLoop env rounds := by
  induction zs with
  | zero =>
    rw [Nat.add_zero, List.replicate_zero, List.nil_append, printfLoop_cons rfl htype,
      printfBody_flag rfl]
    rfl
  | succ zs ih =>
    rw [← Nat.add_assoc, List.replicate_succ, List.cons_append, printfLoop_cons rfl (by decide),
      printfBody_flag rfl]
    exact ih

/-- A percent sign leads to the letter of its directive. -/
theorem printfLoop_directive (zs : ℕ) {type : Byte} (htype : type ≠ 0) :
    printfLoop env (rounds + 1 + zs)
        ⟨some (ch '%' :: (List.replicate zs (ch 'z') ++ type :: rest)), false, taken, out⟩ =
      directive env type ⟨some rest, false, taken, out⟩ >>= printfLoop env rounds := by
  cases zs with
  | zero =>
    rw [Nat.add_zero, List.replicate_zero, List.nil_append, printfLoop_cons rfl (by decide),
      printfBody_percent rfl]
    rfl
  | succ zs =>
    rw [← Nat.add_assoc, List.replicate_succ, List.cons_append, printfLoop_cons rfl (by decide),
      printfBody_percent rfl]
    exact printfLoop_flags zs htype

/-- A directive takes its flags and its argument, and calls its handler. -/
theorem directive_spec (d : Directive) (hargs : ∀ value ∈ d.arguments, env.args taken = value) :
    directive env d.letter ⟨some (d.flags ++ rest), false, taken, out⟩ =
      .ok ⟨some rest, false, taken + d.arguments.length, out ++ [d.rendering env.textAt]⟩ := by
  cases d with
  | percent => rfl
  | string address =>
    have harg := hargs address (List.mem_singleton_self _)
    subst harg
    rfl
  | pointer value =>
    have harg := hargs value (List.mem_singleton_self _)
    subst harg
    have htext := congrArg (fun text => Emission.string (some text)) (pointerText_eq (env.args taken))
    rw [Directive.rendering, ← htext]
    rfl
  | unsigned value =>
    have harg := hargs value (List.mem_singleton_self _)
    subst harg
    have htext := congrArg (fun text => Emission.string (some text))
      (decimalText_eq env.stack (env.args taken))
    rw [Directive.rendering, ← htext]
    rfl
  | hex form width value fits =>
    have harg := hargs value (List.mem_singleton_self _)
    subst harg
    rw [← hexText_eq form width (env.args taken) fits env.textAt]
    exact directive_x env ⟨some ([form.letter, width.letter] ++ rest), false, taken, out⟩

/-- The rounds of the loop that a piece takes. -/
def Piece.turns : Piece → ℕ
  | plain _ _ _ => 1
  | directive zs _ => 1 + zs

theorem Piece.turns_le (p : Piece) : p.turns ≤ p.format.length := by
  cases p with
  | plain c _ _ => exact Nat.le_refl 1
  | directive zs d =>
    rw [Piece.turns, Piece.format, List.length_cons, List.length_append, List.length_replicate,
      List.length_cons]
    omega

/-- A piece is passed with one call of a handler. -/
theorem printfLoop_piece (p : Piece) (hargs : ∀ value ∈ p.arguments, env.args taken = value) :
    printfLoop env (rounds + p.turns) ⟨some (p.format ++ rest), false, taken, out⟩ =
      printfLoop env rounds
        ⟨some rest, false, taken + p.arguments.length, out ++ [p.rendering env.textAt]⟩ := by
  cases p with
  | plain c hc hpercent =>
    rw [Piece.turns, Piece.format, List.singleton_append, printfLoop_cons rfl hc,
      printfBody_char hpercent rfl]
    rfl
  | directive zs d =>
    have hformat : (Piece.directive zs d).format ++ rest =
        ch '%' :: (List.replicate zs (ch 'z') ++ d.letter :: (d.flags ++ rest)) := by
      rw [Piece.format, List.cons_append, List.append_assoc, List.cons_append]
    rw [Piece.turns, ← Nat.add_assoc, hformat, printfLoop_directive zs d.letter_ne_zero,
      directive_spec d hargs]
    rfl

/-- A sequence of pieces is passed with one call of a handler for each. -/
theorem printfLoop_pieces (pieces : List Piece) (hrounds : (formatOf pieces).length < rounds)
    (hargs : ∀ i value, (argumentsOf pieces)[i]? = some value → env.args (taken + i) = value) :
    printfLoop env rounds ⟨some (formatOf pieces), false, taken, out⟩ =
      .ok ⟨some [], false, taken + (argumentsOf pieces).length,
        out ++ pieces.map (Piece.rendering env.textAt)⟩ := by
  induction pieces generalizing rounds taken out with
  | nil =>
    rw [formatOf, List.flatMap_nil, printfLoop_end rfl (Nat.zero_lt_of_lt hrounds), argumentsOf,
      List.flatMap_nil, List.map_nil, List.append_nil]
    rfl
  | cons p pieces ih =>
    have hformat : formatOf (p :: pieces) = p.format ++ formatOf pieces := List.flatMap_cons
    have harguments : argumentsOf (p :: pieces) = p.arguments ++ argumentsOf pieces :=
      List.flatMap_cons
    rw [harguments] at hargs
    rw [hformat, List.length_append] at hrounds
    have hpiece := p.turns_le
    obtain ⟨more, rfl⟩ : ∃ more, rounds = more + p.turns := ⟨rounds - p.turns, by omega⟩
    have hfirst : ∀ value ∈ p.arguments, env.args taken = value := by
      intro value hvalue
      refine hargs 0 value ?_
      rw [Piece.arguments_eq hvalue]
      rfl
    have hrest : ∀ i value, (argumentsOf pieces)[i]? = some value →
        env.args (taken + p.arguments.length + i) = value := by
      intro i value hi
      rw [Nat.add_assoc]
      refine hargs _ value ?_
      rw [List.getElem?_append_right (Nat.le_add_right _ _), Nat.add_sub_cancel_left]
      exact hi
    rw [hformat, printfLoop_piece p hfirst, ih (by omega) hrest, harguments, List.length_append,
      Nat.add_assoc, List.append_assoc, List.map_cons, List.singleton_append]

/-- For every sequence of pieces the formatter calls a handler with each, in order, takes
their arguments and ends at the terminating NUL. -/
theorem strPrintfCore_pieces (pieces : List Piece) (behind : ℕ → Word) (textAt : Word → List Byte)
    (stack : CharMemory) :
    strPrintfCore ⟨withArguments (argumentsOf pieces) behind, textAt, stack⟩ (formatString pieces) =
      .ok { fmt := some [], readZ := false, taken := (argumentsOf pieces).length,
            out := pieces.map (Piece.rendering textAt) } := by
  have hargs : ∀ i value, (argumentsOf pieces)[i]? = some value →
      withArguments (argumentsOf pieces) behind (0 + i) = value := by
    intro i value hi
    rw [Nat.zero_add, withArguments, List.getD_eq_getElem?_getD, hi]
    rfl
  have hloop := @printfLoop_pieces ⟨withArguments (argumentsOf pieces) behind, textAt, stack⟩
    ((formatOf pieces).length + 1) 0 [] pieces (Nat.lt_succ_self _) hargs
  rw [Nat.zero_add, List.nil_append] at hloop
  exact hloop

end Rkhv.PrintfLanguage
