import Rayos.Text.PrintfSinks

/-!
# The language of formats (`printf.c`)

A format is a sequence of pieces: characters, and directives, each made of flags, a width, a precision, a length and
a specifier.  `_vsnprintf` reads these fields one after the other, each as long as it can; it has no list of
specifiers, so that every character that cannot continue a directive ends it.

* `Options.Ends` — the characters that end the options;
* `evalOptions_render` — the options that are read are those that were written;
* `printf_pieces` — the text of a format is that of its pieces, one after the other, and the only formats that are
  read behind their terminator are those that end inside a directive.
-/

namespace Rayos

open CString OutStream

/-! ## Options -/

/-- A flag. -/
inductive FlagChar where
  | zeropad
  | left
  | plus
  | space
  | hash
  deriving DecidableEq

/-- Its character. -/
def FlagChar.char : FlagChar → BitVec 8
  | .zeropad => ch '0'
  | .left => ch '-'
  | .plus => ch '+'
  | .space => ch ' '
  | .hash => ch '#'

/-- What it sets. -/
def FlagChar.set : FlagChar → PrintfFlags → PrintfFlags
  | .zeropad, flags => { flags with zeropad := true }
  | .left, flags => { flags with left := true }
  | .plus, flags => { flags with plus := true }
  | .space, flags => { flags with space := true }
  | .hash, flags => { flags with hash := true }

/-- A width or a precision. -/
inductive Amount where
  | number (digits : List (Fin 10))
  | star
  deriving DecidableEq

/-- A length modifier. -/
inductive LengthMod where
  | l
  | ll
  | h
  | hh
  | t
  | j
  | z
  deriving DecidableEq

/-- Its characters. -/
def LengthMod.chars : LengthMod → Str
  | .l => [ch 'l']
  | .ll => [ch 'l', ch 'l']
  | .h => [ch 'h']
  | .hh => [ch 'h', ch 'h']
  | .t => [ch 't']
  | .j => [ch 'j']
  | .z => [ch 'z']

/-- What it sets. -/
def LengthMod.set : LengthMod → PrintfFlags → PrintfFlags
  | .l, flags => { flags with long := true }
  | .ll, flags => { flags with long := true, longLong := true }
  | .h, flags => { flags with short := true }
  | .hh, flags => { flags with short := true, char := true }
  | .t, flags => { flags with long := true }
  | .j, flags => { flags with long := true }
  | .z, flags => { flags with long := true }

/-- What stands between `%` and the specifier; a precision may be a `.` alone. -/
structure Options where
  flags : List FlagChar
  width : Option Amount
  precision : Option (Option Amount)
  length : Option LengthMod

/-- The character of a digit. -/
def digitChar (d : Fin 10) : BitVec 8 := ch '0' + BitVec.ofNat 8 d

/-- The characters of an amount. -/
def Amount.chars : Amount → Str
  | .number digits => digits.map digitChar
  | .star => [ch '*']

/-- The characters of the options. -/
def Options.render (o : Options) : Str :=
  o.flags.map FlagChar.char ++
    ((o.width.elim [] Amount.chars) ++
      ((o.precision.elim [] fun amount => ch '.' :: amount.elim [] Amount.chars) ++
        o.length.elim [] LengthMod.chars))

/-- The number that digits spell, in 32 bits. -/
def digitsValue (digits : List (Fin 10)) : U32 :=
  digits.foldl (fun (i : U32) (d : Fin 10) => i * 10#32 + BitVec.ofNat 32 d) 0#32

/-! ## Their meaning -/

section Meaning

variable (va : Nat → U64)

/-- The effect of a width; a negative argument is a width with the flag `-`. -/
def Amount.asWidth : Option Amount → PrintfFlags → Nat → PrintfFlags × U32 × Nat
  | none, flags, n => (flags, 0#32, n)
  | some (.number digits), flags, n => (flags, digitsValue digits, n)
  | some .star, flags, n =>
      let w : U32 := (va n).setWidth 32
      if w.slt 0#32 then ({ flags with left := true }, -w, n + 1) else (flags, w, n + 1)

/-- The effect of a precision; a negative argument is the precision 0. -/
def Amount.asPrecision : Option (Option Amount) → PrintfFlags → Nat → PrintfFlags × U32 × Nat
  | none, flags, n => (flags, 0#32, n)
  | some none, flags, n => ({ flags with precision := true }, 0#32, n)
  | some (some (.number digits)), flags, n => ({ flags with precision := true }, digitsValue digits, n)
  | some (some .star), flags, n =>
      let prec : U32 := (va n).setWidth 32
      ({ flags with precision := true }, if (0#32).slt prec then prec else 0#32, n + 1)

/-- The directive that the options ask for, with the number of arguments taken. -/
def Options.spec (o : Options) (n : Nat) : PrintfSpec × Nat :=
  let flags := o.flags.foldl (fun flags c => c.set flags) {}
  let (flags, width, n) := Amount.asWidth va o.width flags n
  let (flags, precision, n) := Amount.asPrecision va o.precision flags n
  (⟨o.length.elim flags fun m => m.set flags, width, precision⟩, n)

end Meaning

/-! ## Reading the options -/

/-- Numbers have a digit, and that of a width does not begin with the flag `0`. -/
structure Options.Valid (o : Options) : Prop where
  width : ∀ digits, o.width = some (.number digits) → ∃ d ds, digits = d :: ds ∧ d ≠ 0
  precision : ∀ digits, o.precision = some (some (.number digits)) → digits ≠ []

/-- The character `c` does not continue the options. -/
structure Options.Ends (o : Options) (c : BitVec 8) : Prop where
  length : o.length = none → c ≠ ch 'l' ∧ c ≠ ch 'h' ∧ c ≠ ch 't' ∧ c ≠ ch 'j' ∧ c ≠ ch 'z'
  long : o.length = some .l → c ≠ ch 'l'
  short : o.length = some .h → c ≠ ch 'h'
  precision : o.length = none →
    (o.precision = none → c ≠ ch '.') ∧ (o.precision = some none → isDigit c = false ∧ c ≠ ch '*') ∧
      ∀ digits, o.precision = some (some (.number digits)) → isDigit c = false
  width : o.length = none → o.precision = none →
    (o.width = none → isDigit c = false ∧ c ≠ ch '*' ∧ flagOf c = none) ∧
      ∀ digits, o.width = some (.number digits) → isDigit c = false

theorem isDigit_digitChar (d : Fin 10) : isDigit (digitChar d) = true := by
  revert d
  decide

theorem digitChar_sub (d : Fin 10) : (digitChar d - ch '0').setWidth 32 = BitVec.ofNat 32 d := by
  revert d
  decide

/-- A character between `'0'` and `'9'` is that of a digit. -/
theorem exists_digitChar {c : BitVec 8} (h : isDigit c = true) : ∃ d, c = digitChar d := by
  have hRange : ch '0' ≤ c ∧ c ≤ ch '9' := of_decide_eq_true h
  have hLow : 48 ≤ c.toNat := hRange.1
  have hHigh : c.toNat ≤ 57 := hRange.2
  refine ⟨⟨c.toNat - 48, by omega⟩, ?_⟩
  apply BitVec.eq_of_toNat_eq
  have hZero : (ch '0').toNat = 48 := rfl
  rw [digitChar, BitVec.toNat_add, hZero, BitVec.toNat_ofNat]
  simp only
  omega

theorem flagOf_char (f : FlagChar) : flagOf f.char = some f.set := by
  cases f <;> rfl

/-- Only the characters of the flags set one. -/
theorem exists_flagChar {c : BitVec 8} {set : PrintfFlags → PrintfFlags} (h : flagOf c = some set) :
    ∃ f : FlagChar, c = f.char ∧ set = f.set := by
  unfold flagOf at h
  split at h
  · rename_i hc
    cases h
    exact ⟨.zeropad, hc, rfl⟩
  · split at h
    · rename_i hc
      cases h
      exact ⟨.left, hc, rfl⟩
    · split at h
      · rename_i hc
        cases h
        exact ⟨.plus, hc, rfl⟩
      · split at h
        · rename_i hc
          cases h
          exact ⟨.space, hc, rfl⟩
        · split at h
          · rename_i hc
            cases h
            exact ⟨.hash, hc, rfl⟩
          · cases h

@[simp] theorem peek_cons (c : BitVec 8) (rest : Str) : peek (c :: rest) = c := rfl

theorem atoi_digits (digits : List (Fin 10)) (i : U32) {rest : Str} (hRest : isDigit (peek rest) = false) :
    atoi i (digits.map digitChar ++ rest) =
      (digits.foldl (fun (i : U32) (d : Fin 10) => i * 10#32 + BitVec.ofNat 32 d) i, rest) := by
  induction digits generalizing i with
  | nil =>
      cases rest with
      | nil => rfl
      | cons c rest =>
          have hc : isDigit c = false := hRest
          rw [List.map_nil, List.nil_append, atoi, if_neg (by rw [hc]; exact Bool.false_ne_true)]
          rfl
  | cons d digits ih =>
      rw [List.map_cons, List.cons_append, atoi, if_pos (isDigit_digitChar d), digitChar_sub, ih, List.foldl_cons]

theorem evalFlags_chars (flags : List FlagChar) (f : PrintfFlags) {rest : Str} (hRest : flagOf (peek rest) = none) :
    evalFlags f (flags.map FlagChar.char ++ rest) = (flags.foldl (fun f c => c.set f) f, rest) := by
  induction flags generalizing f with
  | nil =>
      cases rest with
      | nil => rfl
      | cons c rest =>
          have hc : flagOf c = none := hRest
          rw [List.map_nil, List.nil_append, evalFlags, hc]
          rfl
  | cons c flags ih =>
      rw [List.map_cons, List.cons_append, evalFlags, flagOf_char]
      exact ih _

section Reading

variable (va : Nat → U64)

theorem evalWidth_chars {width : Option Amount} (hValid : ∀ digits, width = some (.number digits) → digits ≠ [])
    (f : PrintfFlags) (n : Nat) {rest : Str}
    (hNone : width = none → isDigit (peek rest) = false ∧ peek rest ≠ ch '*')
    (hNumber : ∀ digits, width = some (.number digits) → isDigit (peek rest) = false) :
    evalWidth va f (width.elim [] Amount.chars ++ rest) n =
      ((Amount.asWidth va width f n).1, (Amount.asWidth va width f n).2.1, rest,
        (Amount.asWidth va width f n).2.2) := by
  match width with
  | none =>
      obtain ⟨hDigit, hStar⟩ := hNone rfl
      rw [Option.elim_none, List.nil_append, evalWidth, if_neg (by rw [hDigit]; exact Bool.false_ne_true),
        if_neg hStar]
      rfl
  | some (.number digits) =>
      have hRest := hNumber digits rfl
      cases digits with
      | nil => exact absurd rfl (hValid [] rfl)
      | cons d digits =>
          have hDigit : isDigit (peek (List.map digitChar (d :: digits) ++ rest)) = true := isDigit_digitChar d
          show evalWidth va f (List.map digitChar (d :: digits) ++ rest) n = _
          rw [evalWidth, if_pos hDigit, atoi_digits _ _ hRest]
          rfl
  | some .star =>
      have hDigit : ¬ isDigit (ch '*') = true := by decide
      show evalWidth va f (ch '*' :: rest) n = _
      rw [evalWidth, peek_cons, if_neg hDigit, if_pos rfl, Amount.asWidth]
      simp only
      split <;> rfl

/-- The precision field, behind its `.`. -/
theorem evalPrecision_dot (f : PrintfFlags) (rest : Str) (n : Nat) :
    evalPrecision va f (ch '.' :: rest) n =
      if isDigit (peek rest) then ({ f with precision := true }, (atoi 0#32 rest).1, (atoi 0#32 rest).2, n)
      else if peek rest = ch '*' then
        ({ f with precision := true },
          if (0#32).slt ((va n).setWidth 32 : U32) then ((va n).setWidth 32 : U32) else 0#32, rest.tail, n + 1)
      else ({ f with precision := true }, 0#32, rest, n) := rfl

theorem evalPrecision_chars {precision : Option (Option Amount)}
    (hValid : ∀ digits, precision = some (some (.number digits)) → digits ≠ []) (f : PrintfFlags) (n : Nat)
    {rest : Str} (hNone : precision = none → peek rest ≠ ch '.')
    (hEmpty : precision = some none → isDigit (peek rest) = false ∧ peek rest ≠ ch '*')
    (hNumber : ∀ digits, precision = some (some (.number digits)) → isDigit (peek rest) = false) :
    evalPrecision va f ((precision.elim [] fun amount => ch '.' :: amount.elim [] Amount.chars) ++ rest) n =
      ((Amount.asPrecision va precision f n).1, (Amount.asPrecision va precision f n).2.1, rest,
        (Amount.asPrecision va precision f n).2.2) := by
  match precision with
  | none =>
      rw [Option.elim_none, List.nil_append, evalPrecision, if_neg (hNone rfl)]
      rfl
  | some none =>
      obtain ⟨hDigit, hStar⟩ := hEmpty rfl
      show evalPrecision va f (ch '.' :: rest) n = _
      have hNotDigit : ¬ isDigit (peek rest) = true := by
        rw [hDigit]
        exact Bool.false_ne_true
      rw [evalPrecision_dot, if_neg hNotDigit, if_neg hStar]
      rfl
  | some (some (.number digits)) =>
      have hRest := hNumber digits rfl
      cases digits with
      | nil => exact absurd rfl (hValid [] rfl)
      | cons d digits =>
          have hDigit : isDigit (peek (List.map digitChar (d :: digits) ++ rest)) = true := isDigit_digitChar d
          show evalPrecision va f (ch '.' :: (List.map digitChar (d :: digits) ++ rest)) n = _
          rw [evalPrecision_dot, if_pos hDigit, atoi_digits _ _ hRest]
          rfl
  | some (some .star) =>
      have hDigit : ¬ isDigit (ch '*') = true := by decide
      show evalPrecision va f (ch '.' :: ch '*' :: rest) n = _
      rw [evalPrecision_dot, peek_cons, if_neg hDigit, if_pos rfl]
      rfl

theorem evalLength_chars {length : Option LengthMod} (f : PrintfFlags) {rest : Str}
    (hNone : length = none →
      peek rest ≠ ch 'l' ∧ peek rest ≠ ch 'h' ∧ peek rest ≠ ch 't' ∧ peek rest ≠ ch 'j' ∧ peek rest ≠ ch 'z')
    (hLong : length = some .l → peek rest ≠ ch 'l') (hShort : length = some .h → peek rest ≠ ch 'h') :
    evalLength f (length.elim [] LengthMod.chars ++ rest) = (length.elim f fun m => m.set f, rest) := by
  match length with
  | none =>
      obtain ⟨hl, hh, ht, hj, hz⟩ := hNone rfl
      rw [Option.elim_none, List.nil_append, evalLength, if_neg hl, if_neg hh, if_neg (by simp [ht, hj, hz])]
      rfl
  | some .l =>
      show evalLength f (ch 'l' :: rest) = _
      rw [evalLength, peek_cons, if_pos rfl, List.tail_cons, if_neg (hLong rfl)]
      rfl
  | some .h =>
      have hNotLong : ch 'h' ≠ ch 'l' := by decide
      show evalLength f (ch 'h' :: rest) = _
      rw [evalLength, peek_cons, if_neg hNotLong, if_pos rfl, List.tail_cons, if_neg (hShort rfl)]
      rfl
  | some .ll | some .hh | some .t | some .j | some .z => rfl

/-- A length modifier does not begin like an earlier field. -/
theorem LengthMod.peek_chars (m : LengthMod) (rest : Str) :
    peek (m.chars ++ rest) ≠ ch '.' ∧ peek (m.chars ++ rest) ≠ ch '*' ∧
      isDigit (peek (m.chars ++ rest)) = false ∧ flagOf (peek (m.chars ++ rest)) = none := by
  have hFirst : ∀ c ∈ [ch 'l', ch 'h', ch 't', ch 'j', ch 'z'],
      c ≠ ch '.' ∧ c ≠ ch '*' ∧ isDigit c = false ∧ flagOf c = none := by decide
  apply hFirst
  cases m <;> simp [LengthMod.chars]

/-- The fields that follow do not begin with a character of an earlier one. -/
theorem Options.peek_length {o : Options} {c : BitVec 8} {rest : Str} (hEnds : o.Ends c) (hPeek : peek rest = c) :
    (o.precision = none → peek (o.length.elim [] LengthMod.chars ++ rest) ≠ ch '.') ∧
    (o.precision = some none → isDigit (peek (o.length.elim [] LengthMod.chars ++ rest)) = false ∧
      peek (o.length.elim [] LengthMod.chars ++ rest) ≠ ch '*') ∧
    ∀ digits, o.precision = some (some (.number digits)) →
      isDigit (peek (o.length.elim [] LengthMod.chars ++ rest)) = false := by
  subst hPeek
  cases hLength : o.length with
  | none => exact hEnds.precision hLength
  | some m =>
      obtain ⟨hDot, hStar, hDigit, -⟩ := m.peek_chars rest
      exact ⟨fun _ => hDot, fun _ => ⟨hDigit, hStar⟩, fun _ _ => hDigit⟩

theorem Options.peek_precision {o : Options} {c : BitVec 8} {rest : Str} (hEnds : o.Ends c) (hPeek : peek rest = c) :
    let tail := (o.precision.elim [] fun amount => ch '.' :: amount.elim [] Amount.chars) ++
      (o.length.elim [] LengthMod.chars ++ rest)
    (o.width = none → isDigit (peek tail) = false ∧ peek tail ≠ ch '*' ∧ flagOf (peek tail) = none) ∧
    ∀ digits, o.width = some (.number digits) → isDigit (peek tail) = false := by
  subst hPeek
  cases hPrecision : o.precision with
  | some amount =>
      have hDot : isDigit (ch '.') = false ∧ ch '.' ≠ ch '*' ∧ flagOf (ch '.') = none := by decide
      exact ⟨fun _ => hDot, fun _ _ => hDot.1⟩
  | none =>
      cases hLength : o.length with
      | none => exact hEnds.width hLength hPrecision
      | some m =>
          obtain ⟨-, hStar, hDigit, hFlag⟩ := m.peek_chars rest
          exact ⟨fun _ => ⟨hDigit, hStar, hFlag⟩, fun _ _ => hDigit⟩

/-- **The options that are read are those that were written.** -/
theorem evalOptions_render {o : Options} (hValid : o.Valid) {rest : Str} (hEnds : o.Ends (peek rest)) (n : Nat) :
    evalOptions va (o.render ++ rest) n = ((o.spec va n).1, rest, (o.spec va n).2) := by
  obtain ⟨hDot, hEmpty, hPrecNumber⟩ := Options.peek_length hEnds rfl
  obtain ⟨hWidthNone, hWidthNumber⟩ := Options.peek_precision hEnds rfl
  have hWidthValid : ∀ digits, o.width = some (.number digits) → digits ≠ [] := by
    intro digits hDigits
    obtain ⟨d, ds, rfl, -⟩ := hValid.width digits hDigits
    exact List.cons_ne_nil d ds
  have hFlag : flagOf (peek (o.width.elim [] Amount.chars ++
      ((o.precision.elim [] fun amount => ch '.' :: amount.elim [] Amount.chars) ++
        (o.length.elim [] LengthMod.chars ++ rest)))) = none := by
    cases hWidth : o.width with
    | none => exact (hWidthNone hWidth).2.2
    | some amount =>
        cases amount with
        | star => exact (by decide : flagOf (ch '*') = none)
        | number digits =>
            obtain ⟨d, ds, rfl, hNonzero⟩ := hValid.width digits hWidth
            have hAll : ∀ d : Fin 10, d ≠ 0 → flagOf (digitChar d) = none := by decide
            exact hAll d hNonzero
  unfold evalOptions Options.render
  simp only [List.append_assoc]
  rw [evalFlags_chars _ _ hFlag]
  simp only
  rw [evalWidth_chars va hWidthValid _ _ (fun h => ⟨(hWidthNone h).1, (hWidthNone h).2.1⟩) hWidthNumber]
  simp only
  rw [evalPrecision_chars va hValid.precision _ _ hDot hEmpty hPrecNumber]
  simp only
  rw [evalLength_chars _ hEnds.length hEnds.long hEnds.short]
  rfl

end Reading

/-! ## Every format is one of the language -/

theorem exists_flags (format : Str) :
    ∃ (flags : List FlagChar) (rest : Str), format = flags.map FlagChar.char ++ rest ∧ flagOf (peek rest) = none := by
  induction format with
  | nil => exact ⟨[], [], rfl, by decide⟩
  | cons c format ih =>
      cases hFlag : flagOf c with
      | none => exact ⟨[], c :: format, rfl, hFlag⟩
      | some set =>
          obtain ⟨f, rfl, -⟩ := exists_flagChar hFlag
          obtain ⟨flags, rest, rfl, hRest⟩ := ih
          exact ⟨f :: flags, rest, rfl, hRest⟩

theorem exists_digits (format : Str) :
    ∃ (digits : List (Fin 10)) (rest : Str), format = digits.map digitChar ++ rest ∧ isDigit (peek rest) = false := by
  induction format with
  | nil => exact ⟨[], [], rfl, by decide⟩
  | cons c format ih =>
      cases hDigit : isDigit c with
      | false => exact ⟨[], c :: format, rfl, hDigit⟩
      | true =>
          obtain ⟨d, rfl⟩ := exists_digitChar hDigit
          obtain ⟨digits, rest, rfl, hRest⟩ := ih
          exact ⟨d :: digits, rest, rfl, hRest⟩

/-- An amount, if there is one, and what follows it. -/
theorem exists_amount (format : Str) :
    ∃ (amount : Option Amount) (rest : Str), format = amount.elim [] Amount.chars ++ rest ∧
      (∀ digits, amount = some (.number digits) → digits ≠ [] ∧ isDigit (peek rest) = false) ∧
      (amount = none → isDigit (peek rest) = false ∧ peek rest ≠ ch '*') := by
  obtain ⟨digits, rest, rfl, hRest⟩ := exists_digits format
  cases digits with
  | cons d digits =>
      refine ⟨some (.number (d :: digits)), rest, rfl, ?_, fun h => (by cases h)⟩
      intro digits' h
      cases h
      exact ⟨List.cons_ne_nil d digits, hRest⟩
  | nil =>
      cases rest with
      | nil => exact ⟨none, [], rfl, fun _ h => (by cases h), fun _ => ⟨hRest, by decide⟩⟩
      | cons c rest =>
          by_cases hStar : c = ch '*'
          · subst hStar
            exact ⟨some .star, rest, rfl, fun _ h => (by cases h), fun h => (by cases h)⟩
          · exact ⟨none, c :: rest, rfl, fun _ h => (by cases h), fun _ => ⟨hRest, hStar⟩⟩

theorem exists_precision (format : Str) :
    ∃ (precision : Option (Option Amount)) (rest : Str),
      format = (precision.elim [] fun amount => ch '.' :: amount.elim [] Amount.chars) ++ rest ∧
      (precision = none → peek rest ≠ ch '.') ∧
      (precision = some none → isDigit (peek rest) = false ∧ peek rest ≠ ch '*') ∧
      ∀ digits, precision = some (some (.number digits)) → digits ≠ [] ∧ isDigit (peek rest) = false := by
  cases format with
  | nil => exact ⟨none, [], rfl, fun _ => (by decide), fun h => (by cases h), fun _ h => (by cases h)⟩
  | cons c format =>
      by_cases hDot : c = ch '.'
      · subst hDot
        obtain ⟨amount, rest, rfl, hNumber, hNone⟩ := exists_amount format
        refine ⟨some amount, rest, rfl, fun h => (by cases h), ?_, ?_⟩
        · intro h
          exact hNone (Option.some.inj h)
        · intro digits h
          exact hNumber digits (Option.some.inj h)
      · exact ⟨none, c :: format, rfl, fun _ => hDot, fun h => (by cases h), fun _ h => (by cases h)⟩

theorem exists_length (format : Str) :
    ∃ (length : Option LengthMod) (rest : Str), format = length.elim [] LengthMod.chars ++ rest ∧
      (length = none → peek rest ≠ ch 'l' ∧ peek rest ≠ ch 'h' ∧ peek rest ≠ ch 't' ∧ peek rest ≠ ch 'j' ∧
        peek rest ≠ ch 'z') ∧
      (length = some .l → peek rest ≠ ch 'l') ∧ (length = some .h → peek rest ≠ ch 'h') := by
  -- a modifier that is given twice is a modifier of its own
  have hTwice : ∀ (c : BitVec 8) (format : Str), peek format = c → c ≠ 0#8 → ∃ rest, format = c :: rest := by
    intro c format hPeek hc
    cases format with
    | nil => exact absurd hPeek.symm hc
    | cons c' rest => exact ⟨rest, congrArg (· :: rest) hPeek⟩
  by_cases hl : peek format = ch 'l'
  · obtain ⟨format, rfl⟩ := hTwice _ _ hl (by decide)
    by_cases hll : peek format = ch 'l'
    · obtain ⟨rest, rfl⟩ := hTwice _ _ hll (by decide)
      exact ⟨some .ll, rest, rfl, fun h => (by cases h), fun h => (by cases h), fun h => (by cases h)⟩
    · exact ⟨some .l, format, rfl, fun h => (by cases h), fun _ => hll, fun h => (by cases h)⟩
  by_cases hh : peek format = ch 'h'
  · obtain ⟨format, rfl⟩ := hTwice _ _ hh (by decide)
    by_cases hhh : peek format = ch 'h'
    · obtain ⟨rest, rfl⟩ := hTwice _ _ hhh (by decide)
      exact ⟨some .hh, rest, rfl, fun h => (by cases h), fun h => (by cases h), fun h => (by cases h)⟩
    · exact ⟨some .h, format, rfl, fun h => (by cases h), fun h => (by cases h), fun _ => hhh⟩
  by_cases ht : peek format = ch 't'
  · obtain ⟨rest, rfl⟩ := hTwice _ _ ht (by decide)
    exact ⟨some .t, rest, rfl, fun h => (by cases h), fun h => (by cases h), fun h => (by cases h)⟩
  by_cases hj : peek format = ch 'j'
  · obtain ⟨rest, rfl⟩ := hTwice _ _ hj (by decide)
    exact ⟨some .j, rest, rfl, fun h => (by cases h), fun h => (by cases h), fun h => (by cases h)⟩
  by_cases hz : peek format = ch 'z'
  · obtain ⟨rest, rfl⟩ := hTwice _ _ hz (by decide)
    exact ⟨some .z, rest, rfl, fun h => (by cases h), fun h => (by cases h), fun h => (by cases h)⟩
  exact ⟨none, format, rfl, fun _ => ⟨hl, hh, ht, hj, hz⟩, fun h => (by cases h), fun h => (by cases h)⟩

/-- What follows a `%` are options and a character that ends them. -/
theorem exists_options (format : Str) :
    ∃ (o : Options) (rest : Str), format = o.render ++ rest ∧ o.Valid ∧ o.Ends (peek rest) := by
  obtain ⟨flags, format, rfl, hFlag⟩ := exists_flags format
  obtain ⟨width, format, rfl, hWidth, hNoWidth⟩ := exists_amount format
  obtain ⟨precision, format, rfl, hNoPrecision, hEmpty, hPrecision⟩ := exists_precision format
  obtain ⟨length, rest, rfl, hNoLength, hLong, hShort⟩ := exists_length format
  refine ⟨⟨flags, width, precision, length⟩, rest, by simp only [Options.render, List.append_assoc], ?_, ?_⟩
  · constructor
    · intro digits h
      obtain rfl : width = some (.number digits) := h
      cases digits with
      | nil => exact absurd rfl (hWidth [] rfl).1
      | cons d ds =>
          refine ⟨d, ds, rfl, ?_⟩
          rintro rfl
          have hZero : flagOf (digitChar 0) = none := hFlag
          revert hZero
          decide
    · intro digits h
      exact (hPrecision digits h).1
  · constructor
    · exact hNoLength
    · exact hLong
    · exact hShort
    · intro h
      obtain rfl : length = none := h
      exact ⟨hNoPrecision, hEmpty, fun digits h => (hPrecision digits h).2⟩
    · intro h h'
      obtain rfl : length = none := h
      obtain rfl : precision = none := h'
      refine ⟨?_, fun digits h => (hWidth digits h).2⟩
      intro h''
      obtain rfl : width = none := h''
      exact ⟨(hNoWidth rfl).1, (hNoWidth rfl).2, hFlag⟩

/-! ## Pieces -/

/-- A piece of a format. -/
inductive Piece where
  | lit (c : BitVec 8)
  | dir (o : Options) (c : BitVec 8)

/-- Its characters. -/
def Piece.render : Piece → Str
  | .lit c => [c]
  | .dir o c => ch '%' :: (o.render ++ [c])

/-- A character is no `%`, and the options are ended by the specifier. -/
def Piece.Valid : Piece → Prop
  | .lit c => c ≠ ch '%'
  | .dir o c => o.Valid ∧ o.Ends c

/-- The text of pieces, from the argument `n` on, with the number of arguments taken. -/
def piecesText (mem : ByteMem) (va : Nat → U64) : Nat → List Piece → Except PrintfFault (Nat × Str)
  | n, [] => .ok (n, [])
  | n, .lit c :: ps => (piecesText mem va n ps).map fun r => (r.1, c :: r.2)
  | n, .dir o c :: ps =>
      (specifierText mem va c (o.spec va n).1 (o.spec va n).2).bind fun r =>
        (piecesText mem va r.1 ps).map fun r' => (r'.1, r.2 ++ r'.2)

section Pieces

variable (mem : ByteMem) (va : Nat → U64)

theorem stepText_lit {c : BitVec 8} (hc : c ≠ ch '%') (format : Str) (n : Nat) :
    stepText mem va (c :: format) n = .ok (format, n, [c]) := if_pos hc

theorem stepText_dir {o : Options} (hValid : o.Valid) {rest : Str} (hEnds : o.Ends (peek rest)) (n : Nat) :
    stepText mem va (ch '%' :: (o.render ++ rest)) n =
      (specifierText mem va (peek rest) (o.spec va n).1 (o.spec va n).2).bind fun r =>
        (advance rest).map fun format => (format, r.1, r.2) := by
  rw [stepText, peek_cons, if_neg (fun h => h rfl)]
  simp only [List.tail_cons, evalOptions_render va hValid hEnds]

/-- A format that begins with pieces: each takes one round. -/
theorem formatText_append {ps : List Piece} (hValid : ∀ p ∈ ps, p.Valid) (rest : Str) (fuel n : Nat) :
    formatText mem va (ps.length + fuel) (ps.flatMap Piece.render ++ rest) n =
      (piecesText mem va n ps).bind fun r => (formatText mem va fuel rest r.1).map fun text => r.2 ++ text := by
  induction ps generalizing n with
  | nil =>
      show _ = Except.map (fun text => [] ++ text) (formatText mem va fuel rest n)
      rw [List.length_nil, Nat.zero_add, List.flatMap_nil, List.nil_append]
      cases formatText mem va fuel rest n <;> rfl
  | cons p ps ih =>
      have hTail := ih fun q hq => hValid q (List.mem_cons_of_mem p hq)
      have hHead := hValid p List.mem_cons_self
      have hFuel : (p :: ps).length + fuel = ps.length + fuel + 1 := by
        rw [List.length_cons]
        omega
      rw [hFuel, List.flatMap_cons, List.append_assoc]
      cases p with
      | lit c =>
          show (stepText mem va (c :: (ps.flatMap Piece.render ++ rest)) n).bind _ = _
          rw [stepText_lit mem va hHead]
          show (formatText mem va (ps.length + fuel) (ps.flatMap Piece.render ++ rest) n).map _ = _
          rw [hTail, piecesText]
          cases piecesText mem va n ps with
          | error fault => rfl
          | ok r =>
              show Except.map _ (Except.map _ (formatText mem va fuel rest r.1)) =
                Except.map _ (formatText mem va fuel rest r.1)
              cases formatText mem va fuel rest r.1 <;> rfl
      | dir o c =>
          have hEnds : o.Ends (peek (c :: (ps.flatMap Piece.render ++ rest))) := hHead.2
          have hStep := stepText_dir mem va hHead.1 hEnds n
          have hFormat : Piece.render (.dir o c) ++ (ps.flatMap Piece.render ++ rest) =
              ch '%' :: (o.render ++ c :: (ps.flatMap Piece.render ++ rest)) := by
            simp only [Piece.render, List.cons_append, List.append_assoc, List.nil_append]
          rw [hFormat, formatText, hStep, piecesText, peek_cons]
          cases specifierText mem va c (o.spec va n).1 (o.spec va n).2 with
          | error fault => rfl
          | ok r =>
              show (formatText mem va (ps.length + fuel) (ps.flatMap Piece.render ++ rest) r.1).map _ =
                Except.bind (Except.map _ (piecesText mem va r.1 ps)) _
              rw [hTail]
              cases piecesText mem va r.1 ps with
              | error fault => rfl
              | ok r' =>
                  show Except.map _ (Except.map _ (formatText mem va fuel rest r'.1)) =
                    Except.map _ (formatText mem va fuel rest r'.1)
                  cases formatText mem va fuel rest r'.1 with
                  | error fault => rfl
                  | ok text => exact congrArg Except.ok (List.append_assoc r.2 r'.2 text).symm

/-- Pieces have a character each. -/
theorem length_le_render (ps : List Piece) : ps.length ≤ (ps.flatMap Piece.render).length := by
  induction ps with
  | nil => exact le_refl _
  | cons p ps ih =>
      have hOne : 1 ≤ p.render.length := by cases p <;> simp [Piece.render]
      rw [List.flatMap_cons, List.length_append, List.length_cons]
      omega

/-- The text of a format that is made of pieces. -/
theorem formatText_render {ps : List Piece} (hValid : ∀ p ∈ ps, p.Valid) :
    formatText mem va (ps.flatMap Piece.render).length (ps.flatMap Piece.render) 0 =
      (piecesText mem va 0 ps).map Prod.snd := by
  obtain ⟨fuel, hFuel⟩ := Nat.exists_eq_add_of_le (length_le_render ps)
  have hText := formatText_append mem va hValid [] fuel 0
  rw [List.append_nil] at hText
  rw [hFuel, hText]
  cases piecesText mem va 0 ps with
  | error fault => rfl
  | ok r => cases fuel <;> exact congrArg Except.ok (List.append_nil r.2)

/-- A format that ends inside a directive is read behind its end. -/
theorem formatText_cut {ps : List Piece} (hValid : ∀ p ∈ ps, p.Valid) {o : Options} (hOptions : o.Valid)
    (hEnds : o.Ends 0#8) :
    ∃ fault, formatText mem va (ps.flatMap Piece.render ++ ch '%' :: o.render).length
      (ps.flatMap Piece.render ++ ch '%' :: o.render) 0 = .error fault := by
  have hStep : ∀ fuel n, ∃ fault, formatText mem va (fuel + 1) (ch '%' :: o.render) n = .error fault := by
    intro fuel n
    have hRead := @stepText_dir mem va o hOptions [] hEnds n
    rw [List.append_nil] at hRead
    rw [formatText, hRead]
    cases specifierText mem va (peek []) (o.spec va n).1 (o.spec va n).2 with
    | error fault => exact ⟨fault, rfl⟩
    | ok r => exact ⟨.overrun, rfl⟩
  obtain ⟨fuel, hFuel⟩ := Nat.exists_eq_add_of_le (length_le_render ps)
  have hLength : (ps.flatMap Piece.render ++ ch '%' :: o.render).length =
      ps.length + (fuel + o.render.length + 1) := by
    rw [List.length_append, List.length_cons, hFuel]
    omega
  rw [hLength, formatText_append mem va hValid]
  cases piecesText mem va 0 ps with
  | error fault => exact ⟨fault, rfl⟩
  | ok r =>
      obtain ⟨fault, hFault⟩ := hStep (fuel + o.render.length) r.1
      refine ⟨fault, ?_⟩
      show Except.map _ (formatText mem va _ (ch '%' :: o.render) r.1) = _
      rw [hFault]
      rfl

end Pieces

/-- A format is a sequence of pieces, or ends inside a directive. -/
theorem exists_pieces (format : Str) :
    ∃ ps : List Piece, (∀ p ∈ ps, p.Valid) ∧
      (format = ps.flatMap Piece.render ∨
        ∃ o : Options, o.Valid ∧ o.Ends 0#8 ∧ format = ps.flatMap Piece.render ++ ch '%' :: o.render) := by
  induction hLength : format.length using Nat.strong_induction_on generalizing format with
  | _ length ih =>
      subst hLength
      cases format with
      | nil => exact ⟨[], fun _ h => absurd h List.not_mem_nil, .inl rfl⟩
      | cons c format =>
          by_cases hc : c = ch '%'
          · subst hc
            obtain ⟨o, rest, rfl, hOptions, hEnds⟩ := exists_options format
            cases rest with
            | nil =>
                rw [List.append_nil]
                exact ⟨[], fun _ h => absurd h List.not_mem_nil, .inr ⟨o, hOptions, hEnds, rfl⟩⟩
            | cons c rest =>
                obtain ⟨ps, hValid, hRest⟩ := ih rest.length (by simp; omega) rest rfl
                refine ⟨.dir o c :: ps, List.forall_mem_cons.mpr ⟨⟨hOptions, hEnds⟩, hValid⟩, ?_⟩
                rcases hRest with hRest | ⟨o', hOptions', hEnds', hRest⟩
                · left
                  rw [hRest]
                  simp [Piece.render]
                · right
                  refine ⟨o', hOptions', hEnds', ?_⟩
                  rw [hRest]
                  simp [Piece.render]
          · obtain ⟨ps, hValid, hRest⟩ := ih format.length (by simp) format rfl
            refine ⟨.lit c :: ps, List.forall_mem_cons.mpr ⟨hc, hValid⟩, ?_⟩
            rcases hRest with hRest | ⟨o, hOptions, hEnds, hRest⟩
            · left
              rw [hRest]
              simp [Piece.render]
            · right
              refine ⟨o, hOptions, hEnds, ?_⟩
              rw [hRest]
              simp [Piece.render]

end Rayos
