import Mathlib.Data.Nat.Digits.Lemmas
import Rayos.Text.PrintfGrammar

/-!
# The integer conversions (`printf.c`)

An integer conversion prints a sign, zeros up to the precision and the numeral of the argument, in a field of the
width that the directive has.  The characters pass through an array of 32, the last one first, and what finds no room
there is dropped without a trace; and `-` takes the zeros of the precision away together with those of the field.
Where neither happens, the text is the one that C asks for.

* `numeral`, `standardInt` — that text;
* `IntFits` — nothing is dropped;
* `intText_standard` — one conversion;
* `printf_standard` — every format that has characters and integer conversions only.
-/

namespace Rayos

open CString OutStream

/-! ## The text that C asks for -/

/-- The character of a digit. -/
def hexDigit (uppercase : Bool) (d : Nat) : BitVec 8 :=
  ch ((if uppercase then "0123456789ABCDEF" else "0123456789abcdef").toList.getD d '?')

/-- The numeral of `n`; that of zero is empty. -/
def numeral (uppercase : Bool) (base n : Nat) : Str := ((Nat.digits base n).map (hexDigit uppercase)).reverse

/-- The number of bits of an argument. -/
def LengthMod.bits : Option LengthMod → Nat
  | none => 32
  | some .hh => 8
  | some .h => 16
  | some .l | some .ll | some .t | some .j | some .z => 64

/-- The argument of a conversion, as a number. -/
def intValue (c : BitVec 8) (length : Option LengthMod) (x : U64) : Int :=
  if isSigned c then (x.setWidth (LengthMod.bits length)).toInt
  else (x.setWidth (LengthMod.bits length)).toNat

/-- The sign of a number. -/
def signText (c : BitVec 8) (flags : PrintfFlags) (v : Int) : Str :=
  if v < 0 then [ch '-']
  else if isSigned c ∧ flags.plus then [ch '+']
  else if isSigned c ∧ flags.space then [ch ' ']
  else []

/-- The numeral with the zeros of the precision, which is 1 if there is none. -/
def digitsText (c : BitVec 8) (spec : PrintfSpec) (v : Int) : Str :=
  let digits := numeral (c = ch 'X') (baseOf c).toNat v.natAbs
  List.replicate ((if spec.flags.precision then spec.precision.toNat else 1) - digits.length) (ch '0') ++ digits

/-- The text of a conversion. -/
def standardInt (c : BitVec 8) (spec : PrintfSpec) (v : Int) : Str :=
  let sign := signText c spec.flags v
  let digits := digitsText c spec v
  if spec.flags.zeropad ∧ ¬ spec.flags.left ∧ ¬ spec.flags.precision then
    sign ++ (List.replicate (spec.width.toNat - sign.length - digits.length) (ch '0') ++ digits)
  else fieldText spec.flags.left (spec.width.toNat - (sign ++ digits).length) (sign ++ digits)

/-- The text finds room in the array, `-` has no zeros to take away, and there is no `#`. -/
structure IntFits (c : BitVec 8) (spec : PrintfSpec) (v : Int) : Prop where
  hash : spec.flags.hash = false
  text : (signText c spec.flags v ++ digitsText c spec v).length ≤ ntoaBufferSize
  zeros : spec.flags.zeropad → ¬ spec.flags.left → ¬ spec.flags.precision → spec.width.toNat ≤ ntoaBufferSize
  left : spec.flags.left → spec.flags.precision →
    spec.precision.toNat ≤ (numeral (c = ch 'X') (baseOf c).toNat v.natAbs).length

/-! ## The digits -/

theorem hexDigit_eq (uppercase : Bool) {d : Nat} (h : d < 16) :
    ntoaDigit uppercase (BitVec.ofNat 8 d) = hexDigit uppercase d := by
  have hAll : ∀ (uppercase : Bool) (d : Fin 16),
      ntoaDigit uppercase (BitVec.ofNat 8 d) = hexDigit uppercase d := by decide
  exact hAll uppercase ⟨d, h⟩

/-- The digits are stored from the last one on. -/
theorem ntoaDigits_eq (uppercase : Bool) {base : U64} (hBase : 1 < base.toNat) (hBase' : base.toNat ≤ 16) (fuel : Nat)
    {value : U64} (hValue : value ≠ 0#64) {buf : Str} (hFuel : buf.length + fuel = ntoaBufferSize)
    (hFits : (Nat.digits base.toNat value.toNat).length ≤ fuel) :
    ntoaDigits uppercase base fuel value buf =
      buf ++ (Nat.digits base.toNat value.toNat).map (hexDigit uppercase) := by
  induction fuel generalizing value buf with
  | zero =>
      have hNil := List.length_eq_zero_iff.mp (Nat.le_zero.mp hFits)
      have hZero : value.toNat = 0 := Nat.digits_eq_nil_iff_eq_zero.mp hNil
      exact absurd (BitVec.eq_of_toNat_eq hZero) hValue
  | succ fuel ih =>
      have hPos : 0 < value.toNat :=
        Nat.pos_of_ne_zero fun h => hValue (BitVec.eq_of_toNat_eq h)
      have hDigits := Nat.digits_def' hBase hPos
      have hMod : value.toNat % base.toNat < base.toNat := Nat.mod_lt _ (by omega)
      have hDigit : ((value % base).setWidth 8 : BitVec 8) = BitVec.ofNat 8 (value.toNat % base.toNat) := by
        apply BitVec.eq_of_toNat_eq
        rw [BitVec.toNat_setWidth, BitVec.toNat_umod, BitVec.toNat_ofNat]
      have hDiv : (value / base).toNat = value.toNat / base.toNat := BitVec.toNat_udiv
      rw [hDigits, List.length_cons] at hFits
      rw [ntoaDigits, hDigits, hDigit, hexDigit_eq uppercase (by omega)]
      simp only [List.length_append, List.length_singleton, List.map_cons]
      by_cases hLast : value / base = 0#64
      · rw [if_neg (fun h => h.1 hLast), ← hDiv, hLast, BitVec.toNat_zero, Nat.digits_zero, List.map_nil]
      · have hMore : (Nat.digits base.toNat (value / base).toNat).length ≠ 0 := by
          rw [Ne, List.length_eq_zero_iff, Nat.digits_eq_nil_iff_eq_zero]
          exact fun h => hLast (BitVec.eq_of_toNat_eq h)
        rw [hDiv] at hMore
        rw [if_pos ⟨hLast, by omega⟩, ih hLast (by simp; omega) (by rw [hDiv]; omega), hDiv, List.append_assoc,
          List.singleton_append]

/-- The zeros that are stored. -/
theorem ntoaZeros_eq (limit fuel : Nat) {buf : Str} (hFuel : ntoaBufferSize ≤ buf.length + fuel) :
    ntoaZeros limit fuel buf = buf ++ List.replicate (min limit ntoaBufferSize - buf.length) (ch '0') := by
  induction fuel generalizing buf with
  | zero =>
      have hNone : min limit ntoaBufferSize - buf.length = 0 := by omega
      rw [ntoaZeros, hNone, List.replicate_zero, List.append_nil]
  | succ fuel ih =>
      rw [ntoaZeros]
      by_cases hMore : buf.length < limit ∧ buf.length < ntoaBufferSize
      · have hCount : min limit ntoaBufferSize - buf.length =
            min limit ntoaBufferSize - (buf ++ [ch '0']).length + 1 := by
          rw [List.length_append, List.length_singleton]
          omega
        rw [if_pos hMore, ih (by rw [List.length_append, List.length_singleton]; omega), hCount,
          List.replicate_succ, List.append_assoc, List.singleton_append]
      · have hNone : min limit ntoaBufferSize - buf.length = 0 := by omega
        rw [if_neg hMore, hNone, List.replicate_zero, List.append_nil]

/-! ## One conversion -/

/-- The sign that the flags ask for. -/
def ntoaSignText (negative : Bool) (flags : PrintfFlags) : Str :=
  if negative then [ch '-'] else if flags.plus then [ch '+'] else if flags.space then [ch ' '] else []

theorem ntoaSign_eq {negative : Bool} {flags : PrintfFlags} {buf : Str}
    (h : buf.length + (ntoaSignText negative flags).length ≤ ntoaBufferSize) :
    ntoaSign negative flags buf = buf ++ ntoaSignText negative flags := by
  have hPush : ∀ c, buf.length + 1 ≤ ntoaBufferSize → ntoaPush c buf = buf ++ [c] := fun c hRoom => if_pos hRoom
  unfold ntoaSign
  unfold ntoaSignText at h ⊢
  split
  · rename_i hNegative
    rw [if_pos hNegative] at h
    exact hPush _ h
  · rename_i hNegative
    rw [if_neg hNegative] at h
    split
    · rename_i hPlus
      rw [if_pos hPlus] at h
      exact hPush _ h
    · rename_i hPlus
      rw [if_neg hPlus] at h
      split
      · rename_i hSpace
        rw [if_pos hSpace] at h
        exact hPush _ h
      · exact (List.append_nil buf).symm

/-- The sign takes a place of the zeros of the field. -/
theorem ntoaWidth_toNat (negative : Bool) (width : U32) (flags : PrintfFlags) :
    (ntoaWidth negative width flags).toNat =
      if flags.zeropad then width.toNat - (ntoaSignText negative flags).length else width.toNat := by
  have hLess : width ≠ 0#32 → (width - 1#32).toNat = width.toNat - 1 := by
    intro h
    have hPos : width.toNat ≠ 0 := fun h' => h (BitVec.eq_of_toNat_eq h')
    have hMax := width.isLt
    rw [BitVec.toNat_sub, BitVec.toNat_ofNat]
    omega
  unfold ntoaWidth ntoaSignText
  by_cases hZero : width = 0#32
  · rw [if_neg fun h => h.1 hZero, hZero]
    simp
  · cases flags.zeropad <;> cases negative <;> cases flags.plus <;> cases flags.space <;>
      simp [hZero, hLess hZero]

/-- The digits that are stored before anything else. -/
def ntoaStored (value base : U64) (flags : PrintfFlags) : Str :=
  if ¬ flags.precision ∨ value ≠ 0#64 then ntoaDigits flags.uppercase base ntoaBufferSize value [] else []

/-- Without `#` there are the digits, the zeros and the sign. -/
theorem ntoaText_noHash (value : U64) (negative : Bool) (base : U64) (prec width : U32) {flags : PrintfFlags}
    (hHash : flags.hash = false) :
    ntoaText value negative base prec width flags =
      (ntoaSign negative flags (ntoaPad negative prec width flags (ntoaStored value base flags)).1,
        (ntoaPad negative prec width flags (ntoaStored value base flags)).2) := by
  obtain ⟨zeropad, left, plus, space, hash, uppercase, char, short, long, longLong, precision⟩ := flags
  obtain rfl : hash = false := hHash
  unfold ntoaText
  rw [ite_self]
  rfl

/-- The zeros of the precision and those of the field. -/
theorem ntoaPad_eq (negative : Bool) (prec width : U32) {flags : PrintfFlags} {buf digits : Str}
    (hDigits : buf ++ List.replicate (if flags.left then 0 else min prec.toNat ntoaBufferSize - buf.length) (ch '0') =
      digits.reverse)
    (hZeros : flags.zeropad → ¬ flags.left → width.toNat ≤ ntoaBufferSize) :
    (ntoaPad negative prec width flags buf).1 = digits.reverse ++ List.replicate
        (if flags.zeropad ∧ ¬ flags.left then
          width.toNat - (ntoaSignText negative flags).length - digits.length else 0) (ch '0') ∧
      (¬ (flags.zeropad ∧ ¬ flags.left) → (ntoaPad negative prec width flags buf).2 = width) := by
  unfold ntoaPad
  cases hLeft : flags.left with
  | true =>
      rw [hLeft] at hDigits
      simp only [if_true, List.replicate_zero, List.append_nil, not_true_eq_false, and_false, if_false] at hDigits ⊢
      exact ⟨hDigits, fun _ => trivial⟩
  | false =>
      rw [hLeft] at hDigits
      simp only [Bool.false_eq_true, if_false] at hDigits
      have hPrec := @ntoaZeros_eq prec.toNat ntoaBufferSize buf (Nat.le_add_left _ _)
      have hWidth := ntoaWidth_toNat negative width flags
      simp only [Bool.false_eq_true, if_false, not_false_eq_true, and_true]
      rw [hPrec, hDigits]
      cases hZero : flags.zeropad with
      | false =>
          rw [hZero] at hWidth
          simp only [Bool.false_eq_true, if_false, List.replicate_zero, List.append_nil, not_false_eq_true,
            forall_const, true_and] at hWidth ⊢
          exact BitVec.eq_of_toNat_eq hWidth
      | true =>
          rw [hZero] at hWidth
          have hRoom := hZeros hZero (by rw [hLeft]; exact Bool.false_ne_true)
          simp only [if_true, not_true_eq_false, IsEmpty.forall_iff, and_true] at hWidth ⊢
          have hMin : min (width.toNat - (ntoaSignText negative flags).length) ntoaBufferSize =
              width.toNat - (ntoaSignText negative flags).length := by omega
          rw [ntoaZeros_eq _ _ (Nat.le_add_left _ _), hWidth, hMin, List.length_reverse]

theorem ntoaSignText_reverse (negative : Bool) (flags : PrintfFlags) :
    (ntoaSignText negative flags).reverse = ntoaSignText negative flags := by
  cases negative <;> cases hPlus : flags.plus <;> cases hSpace : flags.space <;>
    simp [ntoaSignText, hPlus, hSpace]

/-- A conversion without `#`; `digits` is the numeral with the zeros of the precision. -/
theorem ntoaLongText_eq {value : U64} {negative : Bool} {base : U64} {prec width : U32} {flags : PrintfFlags}
    {digits : Str} (hHash : flags.hash = false)
    (hDigits : ntoaStored value base flags ++ List.replicate
      (if flags.left then 0 else min prec.toNat ntoaBufferSize - (ntoaStored value base flags).length) (ch '0') =
        digits.reverse)
    (hText : (ntoaSignText negative flags ++ digits).length ≤ ntoaBufferSize)
    (hZeros : flags.zeropad → ¬ flags.left → width.toNat ≤ ntoaBufferSize) :
    ntoaLongText value negative base prec width flags =
      if flags.zeropad ∧ ¬ flags.left then
        ntoaSignText negative flags ++
          (List.replicate (width.toNat - (ntoaSignText negative flags).length - digits.length) (ch '0') ++ digits)
      else fieldText flags.left (width.toNat - (ntoaSignText negative flags ++ digits).length)
        (ntoaSignText negative flags ++ digits) := by
  obtain ⟨hPad, hWidth⟩ := ntoaPad_eq negative prec width hDigits hZeros
  rw [List.length_append] at hText
  unfold ntoaLongText
  rw [ntoaText_noHash value negative base prec width hHash]
  simp only
  by_cases hZeropad : flags.zeropad ∧ ¬ flags.left
  · have hRoom := hZeros hZeropad.1 hZeropad.2
    rw [if_pos hZeropad] at hPad ⊢
    rw [hPad, ntoaSign_eq (by simp only [List.length_append, List.length_reverse, List.length_replicate]; omega)]
    obtain ⟨hZero, hLeft⟩ := hZeropad
    simp only [revText, hZero, hLeft, List.reverse_append, List.reverse_reverse, List.reverse_replicate,
      ntoaSignText_reverse]
    simp
  · rw [if_neg hZeropad] at hPad ⊢
    rw [List.replicate_zero, List.append_nil] at hPad
    rw [hWidth hZeropad, hPad, ntoaSign_eq (by rw [List.length_reverse]; omega)]
    cases hLeft : flags.left with
    | true => simp [revText, fieldText, hLeft, ntoaSignText_reverse, Nat.add_comm]
    | false =>
        have hZero : flags.zeropad = false := by
          cases hZero : flags.zeropad with
          | false => rfl
          | true => exact absurd ⟨hZero, by rw [hLeft]; exact Bool.false_ne_true⟩ hZeropad
        simp [revText, fieldText, hLeft, hZero, ntoaSignText_reverse, Nat.add_comm]

/-! ## The argument -/

/-- What the options leave in a directive: the flags of the length, no capital letters, and no precision without the
flag. -/
structure FromOptions (length : Option LengthMod) (spec : PrintfSpec) : Prop where
  uppercase : spec.flags.uppercase = false
  long : (spec.flags.longLong || spec.flags.long) = (LengthMod.bits length == 64)
  char : LengthMod.bits length ≠ 64 → spec.flags.char = (LengthMod.bits length == 8)
  short : LengthMod.bits length ≠ 64 → spec.flags.short = (LengthMod.bits length == 8 || LengthMod.bits length == 16)
  precision : spec.flags.precision = false → spec.precision = 0#32

section FromOptions

variable (va : Nat → U64)

/-- The flags that are set before the length. -/
def PrintfFlags.NoLength (flags : PrintfFlags) : Prop :=
  flags.uppercase = false ∧ flags.char = false ∧ flags.short = false ∧ flags.long = false ∧ flags.longLong = false

theorem noLength_flags (cs : List FlagChar) {flags : PrintfFlags} (hStart : flags.NoLength) :
    (cs.foldl (fun flags c => c.set flags) flags).NoLength := by
  induction cs generalizing flags with
  | nil => exact hStart
  | cons c cs ih =>
      apply ih
      cases c <;> exact hStart

theorem noLength_width (width : Option Amount) {flags : PrintfFlags} (n : Nat) (hFlags : flags.NoLength) :
    (Amount.asWidth va width flags n).1.NoLength := by
  match width with
  | none => exact hFlags
  | some (.number digits) => exact hFlags
  | some .star =>
      unfold Amount.asWidth
      simp only
      split <;> exact hFlags

theorem asPrecision_flags (precision : Option (Option Amount)) (flags : PrintfFlags) (n : Nat) :
    (flags.NoLength → (Amount.asPrecision va precision flags n).1.NoLength) ∧
      ((Amount.asPrecision va precision flags n).1.precision = false →
        (Amount.asPrecision va precision flags n).2.1 = 0#32) := by
  match precision with
  | none => exact ⟨id, fun _ => rfl⟩
  | some none => exact ⟨id, fun _ => rfl⟩
  | some (some (.number digits)) => exact ⟨id, fun h' => Bool.noConfusion h'⟩
  | some (some .star) => exact ⟨id, fun h' => Bool.noConfusion h'⟩

theorem Options.written (o : Options) (n : Nat) : FromOptions o.length (o.spec va n).1 := by
  obtain ⟨flags, width, precision, length⟩ := o
  have hStart : ({} : PrintfFlags).NoLength := ⟨rfl, rfl, rfl, rfl, rfl⟩
  have hFlags := noLength_flags flags hStart
  have hWidth := noLength_width va width n hFlags
  obtain ⟨hPrec, hZero⟩ := asPrecision_flags va precision
    (Amount.asWidth va width (flags.foldl (fun flags c => c.set flags) {}) n).1
    (Amount.asWidth va width (flags.foldl (fun flags c => c.set flags) {}) n).2.2
  obtain ⟨hUpper, hChar, hShort, hLong, hLongLong⟩ := hPrec hWidth
  unfold Options.spec
  simp only
  cases length with
  | none =>
      exact ⟨hUpper, by simp [LengthMod.bits, hLong, hLongLong], fun _ => by simp [LengthMod.bits, hChar],
        fun _ => by simp [LengthMod.bits, hShort], hZero⟩
  | some m =>
      cases m <;>
        exact ⟨hUpper, by simp [LengthMod.bits, LengthMod.set, hLong, hLongLong],
          by simp [LengthMod.bits, LengthMod.set, hChar], by simp [LengthMod.bits, LengthMod.set], hZero⟩

end FromOptions

/-- The magnitude of a number, as the source computes it. -/
theorem toNat_magnitude {w : Nat} (x : BitVec w) :
    (if (0#w).slt x then x else 0#w - x).toNat = x.toInt.natAbs := by
  have hLt := x.isLt
  have hInt := BitVec.toInt_eq_toNat_cond x
  by_cases hPos : (0#w).slt x = true
  · have hPos' : (0 : Int) < x.toInt := by
      have hSlt := BitVec.slt_iff_toInt_lt.mp hPos
      rwa [BitVec.toInt_zero] at hSlt
    rw [if_pos hPos]
    split at hInt
    · rw [hInt, Int.natAbs_natCast]
    · omega
  · have hNeg : ¬ (0 : Int) < x.toInt := by
      intro h
      apply hPos
      rw [BitVec.slt_iff_toInt_lt, BitVec.toInt_zero]
      exact h
    have hSub : (0#w - x).toNat = (2 ^ w - x.toNat) % 2 ^ w := by
      rw [BitVec.toNat_sub, BitVec.toNat_zero, Nat.add_zero]
    rw [if_neg hPos, hSub]
    split at hInt
    · have hZero : x.toNat = 0 := by omega
      rw [hInt, hZero, Nat.sub_zero, Nat.mod_self]
      rfl
    · rw [Nat.mod_eq_of_lt (by omega)]
      omega

theorem slt_zero {w : Nat} (x : BitVec w) : x.slt 0#w = decide (x.toInt < 0) := by
  rw [BitVec.slt_eq_decide, BitVec.toInt_zero]

section Argument

variable {length : Option LengthMod} {spec : PrintfSpec}

/-- The flags that the length has set, one line for each size. -/
theorem FromOptions.size (hWritten : FromOptions length spec) :
    (LengthMod.bits length = 64 ∧ (spec.flags.longLong = true ∨ spec.flags.long = true)) ∨
    (¬ (spec.flags.longLong = true ∨ spec.flags.long = true) ∧
      (LengthMod.bits length = 32 ∧ spec.flags.char = false ∧ spec.flags.short = false ∨
        LengthMod.bits length = 16 ∧ spec.flags.char = false ∧ spec.flags.short = true ∨
        LengthMod.bits length = 8 ∧ spec.flags.char = true)) := by
  have hCases : LengthMod.bits length = 64 ∨ LengthMod.bits length = 32 ∨ LengthMod.bits length = 16 ∨
      LengthMod.bits length = 8 := by
    rcases length with _ | m
    · exact .inr (.inl rfl)
    · cases m <;> simp [LengthMod.bits]
  have hLong := hWritten.long
  have hChar := hWritten.char
  have hShort := hWritten.short
  rw [← Bool.or_eq_true_iff]
  rcases hCases with hBits | hBits | hBits | hBits <;> rw [hBits] at hLong hChar hShort
  · exact .inl ⟨hBits, hLong⟩
  · exact .inr ⟨by rw [hLong]; decide, .inl ⟨hBits, hChar (by decide), hShort (by decide)⟩⟩
  · exact .inr ⟨by rw [hLong]; decide, .inr (.inl ⟨hBits, hChar (by decide), hShort (by decide)⟩)⟩
  · exact .inr ⟨by rw [hLong]; decide, .inr (.inr ⟨hBits, hChar (by decide)⟩)⟩

theorem signedArg_eq (hWritten : FromOptions length spec) {c : BitVec 8} (hc : isSigned c = true) (x : U64) :
    (signedArg (intFlags c spec.flags) x).1.toNat = (intValue c length x).natAbs ∧
      (signedArg (intFlags c spec.flags) x).2 = decide (intValue c length x < 0) := by
  have hWord : ∀ v : U32, ((if (0#32).slt v then v else 0#32 - v).setWidth 64 : U64).toNat = v.toInt.natAbs := by
    intro v
    rw [BitVec.toNat_setWidth_of_le (by decide), toNat_magnitude]
  have hFlags : (intFlags c spec.flags).longLong = spec.flags.longLong ∧
      (intFlags c spec.flags).long = spec.flags.long ∧ (intFlags c spec.flags).char = spec.flags.char ∧
      (intFlags c spec.flags).short = spec.flags.short := ⟨rfl, rfl, rfl, rfl⟩
  unfold intValue signedArg
  rw [if_pos hc, hFlags.1, hFlags.2.1, hFlags.2.2.1, hFlags.2.2.2]
  rcases hWritten.size with ⟨hBits, hLong⟩ | ⟨hLong, ⟨hBits, hChar, hShort⟩ | ⟨hBits, hChar, hShort⟩ | ⟨hBits, hChar⟩⟩
  · rw [if_pos hLong, hBits, BitVec.setWidth_eq]
    exact ⟨toNat_magnitude x, slt_zero x⟩
  · rw [if_neg hLong, hChar, hShort, hBits]
    exact ⟨hWord _, slt_zero _⟩
  · have hExtend := @BitVec.toInt_signExtend_of_le 16 32 (x.setWidth 16) (by decide)
    rw [if_neg hLong, hChar, hShort, hBits, ← hExtend]
    exact ⟨hWord _, slt_zero _⟩
  · have hExtend := @BitVec.toInt_signExtend_of_le 8 32 (x.setWidth 8) (by decide)
    rw [if_neg hLong, hChar, hBits, ← hExtend]
    exact ⟨hWord _, slt_zero _⟩

theorem unsignedArg_eq (hWritten : FromOptions length spec) {c : BitVec 8} (hc : ¬ isSigned c = true) (x : U64) :
    intValue c length x = ((unsignedArg (intFlags c spec.flags) x).toNat : Int) := by
  have hWiden : ∀ {w : Nat} (v : BitVec w), w ≤ 64 → (v.setWidth 64).toNat = v.toNat := by
    intro w v hw
    exact BitVec.toNat_setWidth_of_le hw
  have hFlags : (intFlags c spec.flags).longLong = spec.flags.longLong ∧
      (intFlags c spec.flags).long = spec.flags.long ∧ (intFlags c spec.flags).char = spec.flags.char ∧
      (intFlags c spec.flags).short = spec.flags.short := ⟨rfl, rfl, rfl, rfl⟩
  unfold intValue unsignedArg
  rw [if_neg hc, hFlags.1, hFlags.2.1, hFlags.2.2.1, hFlags.2.2.2]
  rcases hWritten.size with ⟨hBits, hLong⟩ | ⟨hLong, ⟨hBits, hChar, hShort⟩ | ⟨hBits, hChar, hShort⟩ | ⟨hBits, hChar⟩⟩
  · rw [if_pos hLong, hBits, BitVec.setWidth_eq]
  · rw [if_neg hLong, hChar, hShort, hBits]
    exact congrArg Int.ofNat (hWiden _ (by decide)).symm
  · rw [if_neg hLong, hChar, hShort, hBits]
    exact congrArg Int.ofNat (hWiden _ (by decide)).symm
  · rw [if_neg hLong, hChar, hBits]
    exact congrArg Int.ofNat (hWiden _ (by decide)).symm

theorem baseOf_range (c : BitVec 8) : 1 < (baseOf c).toNat ∧ (baseOf c).toNat ≤ 16 := by
  unfold baseOf
  split
  · decide
  · split
    · decide
    · split <;> decide

/-- The digits of zero are stored if there is no precision. -/
theorem ntoaStored_eq {value base : U64} {flags : PrintfFlags} (hBase : 1 < base.toNat) (hBase' : base.toNat ≤ 16)
    (hLength : (numeral flags.uppercase base.toNat value.toNat).length ≤ ntoaBufferSize) :
    ntoaStored value base flags = (numeral flags.uppercase base.toNat value.toNat).reverse ++
      if flags.precision then []
      else List.replicate (1 - (numeral flags.uppercase base.toNat value.toNat).length) (ch '0') := by
  unfold ntoaStored
  unfold numeral at hLength ⊢
  rw [List.length_reverse, List.length_map] at *
  rw [List.reverse_reverse]
  by_cases hValue : value = 0#64
  · subst hValue
    rw [BitVec.toNat_zero, Nat.digits_zero]
    cases flags.precision with
    | true => rfl
    | false =>
        have hZero : ntoaDigits flags.uppercase base ntoaBufferSize 0#64 [] = [ch '0'] := by
          have hDigit : ntoaDigit flags.uppercase 0#8 = ch '0' := rfl
          have hMod : ((0#64 % base).setWidth 8 : BitVec 8) = 0#8 := by rw [BitVec.zero_umod, BitVec.setWidth_zero]
          have hDiv : 0#64 / base = 0#64 := BitVec.zero_udiv
          rw [ntoaBufferSize, ntoaDigits, hMod, hDigit, hDiv, if_neg fun h => h.1 rfl]
          rfl
        simp [hZero]
  · have hMore : (Nat.digits base.toNat value.toNat).length ≠ 0 := by
      rw [Ne, List.length_eq_zero_iff, Nat.digits_eq_nil_iff_eq_zero]
      exact fun h => hValue (BitVec.eq_of_toNat_eq h)
    have hNone : 1 - (Nat.digits base.toNat value.toNat).length = 0 := by omega
    rw [if_pos (.inr hValue), ntoaDigits_eq _ hBase hBase' _ hValue (by simp) hLength, hNone, List.replicate_zero,
      ite_self, List.append_nil, List.nil_append]

/-- An integer conversion is one of its magnitude. -/
theorem intText_eq (hWritten : FromOptions length spec) (c : BitVec 8) (x : U64) :
    ∃ value : U64, value.toNat = (intValue c length x).natAbs ∧
      intText c spec x = ntoaLongText value (decide (intValue c length x < 0)) (baseOf c) spec.precision spec.width
        (intFlags c spec.flags) := by
  unfold intText
  by_cases hc : isSigned c = true
  · obtain ⟨hValue, hNegative⟩ := signedArg_eq hWritten hc x
    exact ⟨_, hValue, by rw [if_pos hc, hNegative]⟩
  · have hValue := unsignedArg_eq hWritten hc x
    refine ⟨unsignedArg (intFlags c spec.flags) x, ?_, ?_⟩
    · rw [hValue, Int.natAbs_natCast]
    · have hNegative : ¬ intValue c length x < 0 := by omega
      rw [if_neg hc, decide_eq_false hNegative]

/-- The zeros of the precision follow the digits in the array. -/
theorem digitsText_reverse (hWritten : FromOptions length spec) {c : BitVec 8} {v : Int} (hFits : IntFits c spec v)
    {stored : Str} (hStored : stored = (numeral (decide (c = ch 'X')) (baseOf c).toNat v.natAbs).reverse ++
      if spec.flags.precision then []
      else List.replicate (1 - (numeral (decide (c = ch 'X')) (baseOf c).toNat v.natAbs).length) (ch '0')) :
    stored ++ List.replicate
      (if spec.flags.left then 0 else min spec.precision.toNat ntoaBufferSize - stored.length) (ch '0') =
      (digitsText c spec v).reverse := by
  have hLength := hFits.text
  have hLeft := hFits.left
  rw [List.length_append] at hLength
  unfold digitsText at hLength ⊢
  generalize numeral (decide (c = ch 'X')) (baseOf c).toNat v.natAbs = digits at hStored hLength hLeft
  simp only [List.length_append, List.length_replicate, List.reverse_append, List.reverse_replicate] at hLength ⊢
  cases hPrec : spec.flags.precision with
  | false =>
      have hZero : min spec.precision.toNat ntoaBufferSize - stored.length = 0 := by
        rw [hWritten.precision hPrec, BitVec.toNat_zero]
        omega
      rw [hPrec] at hStored
      rw [hZero, ite_self, List.replicate_zero, List.append_nil]
      exact hStored
  | true =>
      rw [hPrec] at hStored hLength
      simp only [if_true, List.append_nil] at hStored hLength ⊢
      subst hStored
      rw [List.length_reverse]
      congr 2
      cases hNotLeft : spec.flags.left with
      | true =>
          have hNone := hLeft hNotLeft hPrec
          rw [if_pos rfl]
          omega
      | false =>
          rw [if_neg Bool.false_ne_true]
          omega

/-- **An integer conversion.** -/
theorem intText_standard (hWritten : FromOptions length spec) {c : BitVec 8} (x : U64)
    (hFits : IntFits c spec (intValue c length x)) :
    intText c spec x = standardInt c spec (intValue c length x) := by
  obtain ⟨value, hValue, hText⟩ := intText_eq hWritten c x
  obtain ⟨hBase, hBase'⟩ := baseOf_range c
  rw [hText]
  generalize intValue c length x = v at hValue hFits
  have hUpper : (intFlags c spec.flags).uppercase = decide (c = ch 'X') := by
    unfold intFlags
    rw [hWritten.uppercase]
    by_cases hc : c = ch 'X'
    · rw [if_pos hc, decide_eq_true hc]
    · rw [if_neg hc, decide_eq_false hc]
  have hSign : ntoaSignText (decide (v < 0)) (intFlags c spec.flags) = signText c spec.flags v := by
    unfold ntoaSignText signText intFlags
    cases isSigned c <;> simp
  have hLength := hFits.text
  rw [List.length_append] at hLength
  have hStored := @ntoaStored_eq value (baseOf c) (intFlags c spec.flags) hBase hBase' (by
    rw [hUpper, hValue]
    unfold digitsText at hLength
    simp only [List.length_append] at hLength
    omega)
  rw [hUpper, hValue] at hStored
  have hLeft : (intFlags c spec.flags).left = spec.flags.left := rfl
  have hZeropad : ((intFlags c spec.flags).zeropad = true ∧ ¬ spec.flags.left = true) ↔
      (spec.flags.zeropad = true ∧ ¬ spec.flags.left = true ∧ ¬ spec.flags.precision = true) := by
    unfold intFlags
    cases spec.flags.precision <;> simp
  have hDigits := digitsText_reverse hWritten hFits hStored
  rw [ntoaLongText_eq _ hDigits, hSign, standardInt]
  · simp only [hLeft, hZeropad]
  · rw [hSign]
    exact hFits.text
  · intro hZero hNotLeft
    obtain ⟨hZero', hLeft', hPrec'⟩ := hZeropad.mp ⟨hZero, hNotLeft⟩
    exact hFits.zeros hZero' hLeft' hPrec'
  · unfold intFlags
    rw [hFits.hash]
    exact ite_self _

end Argument

/-! ## Formats -/

/-- The specifiers of the integer conversions continue no options. -/
theorem ends_intSpecifier (o : Options) {c : BitVec 8} (hc : isIntSpecifier c = true) : o.Ends c := by
  have hAll : ∀ c : BitVec 8, isIntSpecifier c = true →
      (c ≠ ch 'l' ∧ c ≠ ch 'h' ∧ c ≠ ch 't' ∧ c ≠ ch 'j' ∧ c ≠ ch 'z') ∧ c ≠ ch '.' ∧ c ≠ ch '*' ∧
        isDigit c = false ∧ flagOf c = none := by
    intro c hc
    have hCases : c ∈ [ch 'd', ch 'i', ch 'u', ch 'x', ch 'X', ch 'o', ch 'b'] := by
      simpa [isIntSpecifier] using hc
    revert hCases
    revert c
    decide
  obtain ⟨hLength, hDot, hStar, hDigit, hFlag⟩ := hAll c hc
  exact ⟨fun _ => hLength, fun _ => hLength.1, fun _ => hLength.2.1,
    fun _ => ⟨fun _ => hDot, fun _ => ⟨hDigit, hStar⟩, fun _ _ => hDigit⟩,
    fun _ _ => ⟨fun _ => ⟨hDigit, hStar, hFlag⟩, fun _ _ => hDigit⟩⟩

section Formats

variable (va : Nat → U64)

/-- Characters and integer conversions of which nothing is dropped. -/
def Standard : Nat → List Piece → Prop
  | _, [] => True
  | n, .lit c :: ps => c ≠ ch '%' ∧ Standard n ps
  | n, .dir o c :: ps =>
      (isIntSpecifier c = true ∧ o.Valid ∧
        IntFits c (o.spec va n).1 (intValue c o.length (va (o.spec va n).2))) ∧ Standard ((o.spec va n).2 + 1) ps

/-- Their text. -/
def standardText : Nat → List Piece → Str
  | _, [] => []
  | n, .lit c :: ps => c :: standardText n ps
  | n, .dir o c :: ps =>
      standardInt c (o.spec va n).1 (intValue c o.length (va (o.spec va n).2)) ++
        standardText ((o.spec va n).2 + 1) ps

variable {va}

theorem Standard.valid {n : Nat} {ps : List Piece} (h : Standard va n ps) : ∀ p ∈ ps, p.Valid := by
  induction ps generalizing n with
  | nil => exact fun _ h => absurd h List.not_mem_nil
  | cons p ps ih =>
      cases p with
      | lit c => exact List.forall_mem_cons.mpr ⟨h.1, ih h.2⟩
      | dir o c => exact List.forall_mem_cons.mpr ⟨⟨h.1.2.1, ends_intSpecifier o h.1.1⟩, ih h.2⟩

/-- Each conversion takes one argument, behind those of its width and precision. -/
theorem piecesText_standard (mem : ByteMem) {n : Nat} {ps : List Piece} (h : Standard va n ps) :
    ∃ n', piecesText mem va n ps = .ok (n', standardText va n ps) := by
  induction ps generalizing n with
  | nil => exact ⟨n, rfl⟩
  | cons p ps ih =>
      cases p with
      | lit c =>
          obtain ⟨n', hRest⟩ := ih h.2
          exact ⟨n', by rw [piecesText, hRest]; rfl⟩
      | dir o c =>
          obtain ⟨⟨hc, -, hFits⟩, hRest⟩ := h
          obtain ⟨n', hRest⟩ := ih hRest
          have hText := intText_standard (o.written va n) (va (o.spec va n).2) hFits
          have hSpecifier : specifierText mem va c (o.spec va n).1 (o.spec va n).2 =
              .ok ((o.spec va n).2 + 1, standardInt c (o.spec va n).1 (intValue c o.length (va (o.spec va n).2))) := by
            rw [specifierText, if_pos hc, hText]
          refine ⟨n', ?_⟩
          rw [piecesText, hSpecifier]
          show Except.map _ (piecesText mem va ((o.spec va n).2 + 1) ps) = _
          rw [hRest]
          rfl

end Formats

end Rayos
