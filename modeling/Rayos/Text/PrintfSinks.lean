import Rayos.Text.Printf

/-!
# One text for every output function (`printf.c`)

The output function has no influence on what `_vsnprintf` does: the characters that it is called with, their
indices and the result are those of one text, which depends on the format and the arguments only.  So `snprintf`
stores what `sprintf` stores, cut off at the size of the buffer, and `printf` sends the same characters.

* `formatText` — the text of a format;
* `formatLoop_eq` — the loop of `_vsnprintf` writes it;
* `printf_sameText` — what each caller does with it.
-/

namespace Rayos

open CString OutStream

/-! ## The texts of the directives -/

/-- What `_out_rev` writes. -/
def revText (buf : Str) (width : U32) (flags : PrintfFlags) : Str :=
  (if ¬ flags.left ∧ ¬ flags.zeropad then List.replicate (width.toNat - buf.length) (ch ' ') else []) ++
    buf.reverse ++ if flags.left then List.replicate (width.toNat - buf.length) (ch ' ') else []

/-- What `_ntoa_long` writes. -/
def ntoaLongText (value : U64) (negative : Bool) (base : U64) (prec width : U32) (flags : PrintfFlags) : Str :=
  revText (ntoaText value negative base prec width flags).1 (ntoaText value negative base prec width flags).2 flags

/-- What an integer conversion writes. -/
def intText (c : BitVec 8) (spec : PrintfSpec) (x : U64) : Str :=
  let flags := intFlags c spec.flags
  if isSigned c then
    ntoaLongText (signedArg flags x).1 (signedArg flags x).2 (baseOf c) spec.precision spec.width flags
  else ntoaLongText (unsignedArg flags x) false (baseOf c) spec.precision spec.width flags

/-- A text in a field. -/
def fieldText (left : Bool) (spaces : Nat) (text : Str) : Str :=
  if left then text ++ List.replicate spaces (ch ' ') else List.replicate spaces (ch ' ') ++ text

/-- What `%c` writes. -/
def charText (spec : PrintfSpec) (x : U64) : Str :=
  fieldText spec.flags.left (spec.width.toNat - 1) [x.setWidth 8]

/-- The characters of a string argument, up to its terminator or the precision. -/
def stringChars (mem : ByteMem) (hasPrecision : Bool) : Nat → U64 → Except PrintfFault Str
  | 0, p => if hasPrecision ∨ mem p = 0#8 then .ok [] else .error .endless
  | n + 1, p =>
      if mem p = 0#8 then .ok [] else (stringChars mem hasPrecision n (p + 1#64)).map fun text => mem p :: text

/-- The number of characters that `%s` counts. -/
def stringLength (mem : ByteMem) (spec : PrintfSpec) (p : U64) : U32 :=
  let maxsize := if spec.precision ≠ 0#32 then spec.precision.toNat else 2 ^ 64 - 1
  let l : U32 := BitVec.ofNat 32 (strnlenS mem maxsize p)
  if spec.flags.precision then (if l < spec.precision then l else spec.precision) else l

/-- What `%s` writes. -/
def stringText (mem : ByteMem) (spec : PrintfSpec) (p : U64) : Except PrintfFault Str :=
  (stringChars mem spec.flags.precision (if spec.flags.precision then spec.precision.toNat else 2 ^ 64) p).map
    fun text => fieldText spec.flags.left (spec.width.toNat - (stringLength mem spec p).toNat) text

/-- What a specifier writes, with the number of arguments taken. -/
def specifierText (mem : ByteMem) (va : Nat → U64) (c : BitVec 8) (spec : PrintfSpec) (n : Nat) :
    Except PrintfFault (Nat × Str) :=
  if isIntSpecifier c then .ok (n + 1, intText c spec (va n))
  else if c = ch 'c' then .ok (n + 1, charText spec (va n))
  else if c = ch 's' then (stringText mem spec (va n)).map fun text => (n + 1, text)
  else if c = ch 'p' then
    .ok (n + 1, ntoaLongText (va n) false 16#64 spec.precision 16#32
      { spec.flags with zeropad := true, uppercase := true })
  else .ok (n, [c])

/-- What a round of the loop writes, with the rest of the format. -/
def stepText (mem : ByteMem) (va : Nat → U64) (format : Str) (n : Nat) : Except PrintfFault (Str × Nat × Str) :=
  if peek format ≠ ch '%' then .ok (format.tail, n, [peek format])
  else
    let options := evalOptions va format.tail n
    (specifierText mem va (peek options.2.1) options.1 options.2.2).bind fun r =>
      (advance options.2.1).map fun format => (format, r.1, r.2)

/-- The text of a format, for at most `fuel` rounds. -/
def formatText (mem : ByteMem) (va : Nat → U64) : Nat → Str → Nat → Except PrintfFault Str
  | _, [], _ => .ok []
  | 0, _ :: _, _ => .error .overrun
  | fuel + 1, c :: format, n =>
      (stepText mem va (c :: format) n).bind fun r => (formatText mem va fuel r.1 r.2.1).map fun text => r.2.2 ++ text

/-! ## Padding -/

section Writing

variable {σ : Type} (out : Out (BitVec 8) σ 64)

theorem outSpaces_eq (n : Nat) (s : U64 × σ) : outSpaces out n s = emit out (List.replicate n (ch ' ')) s := by
  induction n generalizing s with
  | zero => rfl
  | succ n ih => rw [outSpaces, ih, List.replicate_succ, emit_cons]

theorem outBackwards_eq {buf : Str} {len : Nat} (hLen : len ≤ buf.length) (s : U64 × σ) :
    outBackwards out buf len s = emit out (buf.take len).reverse s := by
  induction len generalizing s with
  | zero => rfl
  | succ len ih =>
      have hLast : buf.getD len 0#8 = buf[len] := by
        rw [List.getD_eq_getElem?_getD, List.getElem?_eq_getElem (by omega), Option.getD_some]
      rw [outBackwards, ih (by omega), hLast, List.take_add_one, List.getElem?_eq_getElem (by omega),
        Option.toList_some, List.reverse_append, List.reverse_singleton, List.singleton_append, emit_cons]

/-- `k` characters have been written since `startIdx`; the loop writes those that are missing. -/
theorem outUpTo_eq {startIdx : U64} {width : U32} {fuel k : Nat} {s : U64 × σ} (hk : (s.1 - startIdx).toNat = k)
    (hFuel : width.toNat ≤ k + fuel) :
    outUpTo out startIdx width fuel s = emit out (List.replicate (width.toNat - k) (ch ' ')) s := by
  have hWidth := width.isLt
  induction fuel generalizing k s with
  | zero =>
      rw [show width.toNat - k = 0 by omega]
      rfl
  | succ fuel ih =>
      have hCond : s.1 - startIdx < width.setWidth 64 ↔ k < width.toNat := by
        rw [BitVec.lt_def, hk, BitVec.toNat_setWidth, Nat.mod_eq_of_lt (by omega)]
      rw [outUpTo]
      by_cases hMore : k < width.toNat
      · have hNext : ((put out (ch ' ') s).1 - startIdx).toNat = k + 1 := by
          have hSub : s.1 + 1#64 - startIdx = s.1 - startIdx + 1#64 := by
            rw [BitVec.sub_eq_add_neg, BitVec.sub_eq_add_neg, BitVec.add_assoc, BitVec.add_assoc,
              BitVec.add_comm 1#64]
          rw [put, hSub, BitVec.toNat_add, hk, BitVec.toNat_ofNat]
          omega
        have hCount : width.toNat - k = width.toNat - (k + 1) + 1 := by omega
        rw [if_pos (hCond.mpr hMore), ih hNext (by omega), hCount, List.replicate_succ, emit_cons]
      · rw [if_neg fun h => hMore (hCond.mp h), show width.toNat - k = 0 by omega]
        rfl

theorem outRev_eq {buf : Str} (hLen : buf.length < 2 ^ 64) (width : U32) (flags : PrintfFlags) (s : U64 × σ) :
    outRev out buf width flags s = emit out (revText buf width flags) s := by
  unfold outRev revText
  cases hLeft : flags.left with
  | false =>
      cases hZero : flags.zeropad with
      | false =>
          simp only [Bool.false_eq_true, not_false_eq_true, and_self, if_true, if_false, List.append_nil]
          rw [outSpaces_eq, outBackwards_eq out (le_refl _), List.take_length, emit_append]
      | true =>
          simp only [Bool.false_eq_true, not_true_eq_false, not_false_eq_true, and_false, if_false, List.append_nil,
            List.nil_append]
          rw [outBackwards_eq out (le_refl _), List.take_length]
  | true =>
      simp only [not_true_eq_false, false_and, if_false, if_true, List.nil_append]
      have hIdx : ((outBackwards out buf buf.length s).1 - s.1).toNat = buf.length := by
        rw [outBackwards_eq out (le_refl _), List.take_length, emit_fst, List.length_reverse, BitVec.add_comm,
          BitVec.add_sub_cancel, BitVec.toNat_ofNat, Nat.mod_eq_of_lt hLen]
      rw [outUpTo_eq out hIdx (by omega), outBackwards_eq out (le_refl _), List.take_length, emit_append]

end Writing

/-! ## The local array -/

theorem ntoaZeros_length (limit fuel : Nat) {buf : Str} (h : buf.length ≤ ntoaBufferSize) :
    (ntoaZeros limit fuel buf).length ≤ ntoaBufferSize := by
  induction fuel generalizing buf with
  | zero => exact h
  | succ fuel ih =>
      rw [ntoaZeros]
      split
      · rename_i hRoom
        apply ih
        rw [List.length_append, List.length_singleton]
        exact hRoom.2
      · exact h

theorem ntoaPush_length (c : BitVec 8) {buf : Str} (h : buf.length ≤ ntoaBufferSize) :
    (ntoaPush c buf).length ≤ ntoaBufferSize := by
  rw [ntoaPush]
  split
  · rename_i hRoom
    rw [List.length_append, List.length_singleton]
    exact hRoom
  · exact h

theorem ntoaDigits_length (uppercase : Bool) (base : U64) {fuel : Nat} (value : U64) {buf : Str}
    (h : buf.length < ntoaBufferSize) : (ntoaDigits uppercase base fuel value buf).length ≤ ntoaBufferSize := by
  induction fuel generalizing value buf with
  | zero => exact h.le
  | succ fuel ih =>
      rw [ntoaDigits]
      split
      · rename_i hMore
        exact ih _ hMore.2
      · rw [List.length_append, List.length_singleton]
        exact h

theorem ntoaPad_length (negative : Bool) (prec width : U32) (flags : PrintfFlags) {buf : Str}
    (h : buf.length ≤ ntoaBufferSize) : (ntoaPad negative prec width flags buf).1.length ≤ ntoaBufferSize := by
  have hPrec := ntoaZeros_length prec.toNat ntoaBufferSize h
  unfold ntoaPad
  split
  · exact h
  · simp only
    split
    · exact ntoaZeros_length _ _ hPrec
    · exact hPrec

theorem ntoaHash_length (base : U64) (prec width : U32) (flags : PrintfFlags) {buf : Str}
    (h : buf.length ≤ ntoaBufferSize) : (ntoaHash base prec width flags buf).length ≤ ntoaBufferSize := by
  unfold ntoaHash
  split
  · apply ntoaPush_length
    have hCut : ∀ buf' : Str, buf'.length ≤ ntoaBufferSize →
        (if base = 16#64 ∧ ¬ flags.uppercase ∧ buf'.length < ntoaBufferSize then buf' ++ [ch 'x']
        else if base = 16#64 ∧ flags.uppercase ∧ buf'.length < ntoaBufferSize then buf' ++ [ch 'X']
        else if base = 2#64 ∧ buf'.length < ntoaBufferSize then buf' ++ [ch 'b']
        else buf').length ≤ ntoaBufferSize := by
      intro buf' h'
      split
      · simp only [List.length_append, List.length_singleton]
        omega
      · split
        · simp only [List.length_append, List.length_singleton]
          omega
        · split
          · simp only [List.length_append, List.length_singleton]
            omega
          · exact h'
    apply hCut
    have hDrop : ∀ buf' : Str, buf'.dropLast.length ≤ buf'.length := fun buf' => by
      rw [List.length_dropLast]
      omega
    split
    · simp only
      split
      · exact (hDrop _).trans ((hDrop _).trans h)
      · exact (hDrop _).trans h
    · exact h
  · exact h

theorem ntoaSign_length (negative : Bool) (flags : PrintfFlags) {buf : Str} (h : buf.length ≤ ntoaBufferSize) :
    (ntoaSign negative flags buf).length ≤ ntoaBufferSize := by
  unfold ntoaSign
  split
  · exact ntoaPush_length _ h
  · split
    · exact ntoaPush_length _ h
    · split
      · exact ntoaPush_length _ h
      · exact h

/-- The array of the number conversions is never left: no store is behind its last element. -/
theorem ntoaText_length (value : U64) (negative : Bool) (base : U64) (prec width : U32) (flags : PrintfFlags) :
    (ntoaText value negative base prec width flags).1.length ≤ ntoaBufferSize := by
  unfold ntoaText
  simp only
  apply ntoaSign_length
  apply ntoaHash_length
  apply ntoaPad_length
  split
  · exact ntoaDigits_length _ _ _ (by decide)
  · exact Nat.zero_le _

/-! ## The interpreter -/

section Interpreter

variable {σ : Type} (out : Out (BitVec 8) σ 64) (mem : ByteMem) (va : Nat → U64)

theorem ntoaLong_eq (value : U64) (negative : Bool) (base : U64) (prec width : U32) (flags : PrintfFlags)
    (s : U64 × σ) : ntoaLong out value negative base prec width flags s =
      emit out (ntoaLongText value negative base prec width flags) s := by
  have hLength := ntoaText_length value negative base prec width flags
  exact outRev_eq out (Nat.lt_of_le_of_lt hLength (by decide)) _ _ _

theorem evalInt_eq (c : BitVec 8) (spec : PrintfSpec) (x : U64) (s : U64 × σ) :
    evalInt out c spec x s = emit out (intText c spec x) s := by
  unfold evalInt intText
  simp only [ntoaLongLong, ntoaLong_eq, ite_self]
  split <;> rfl

theorem field_eq (left : Bool) (spaces : Nat) (text : Str) (s : U64 × σ) :
    (if left then outSpaces out spaces (emit out text (if ¬ left then outSpaces out spaces s else s))
      else emit out text (if ¬ left then outSpaces out spaces s else s)) =
    emit out (fieldText left spaces text) s := by
  cases left with
  | false =>
      simp only [Bool.false_eq_true, not_false_eq_true, if_true, if_false, fieldText]
      rw [outSpaces_eq, emit_append]
  | true =>
      simp only [not_true_eq_false, if_true, if_false, fieldText]
      rw [outSpaces_eq, emit_append]

theorem evalChar_eq (spec : PrintfSpec) (x : U64) (s : U64 × σ) :
    evalChar out spec x s = emit out (charText spec x) s :=
  field_eq out spec.flags.left (spec.width.toNat - 1) [x.setWidth 8] s

theorem outString_eq (hasPrecision : Bool) (n : Nat) (p : U64) (s : U64 × σ) :
    outString out mem hasPrecision n p s =
      (stringChars mem hasPrecision n p).map fun text => emit out text s := by
  induction n generalizing p s with
  | zero =>
      rw [outString, stringChars]
      split <;> rfl
  | succ n ih =>
      rw [outString, stringChars]
      split
      · rfl
      · rw [ih]
        cases stringChars mem hasPrecision n (p + 1#64) <;> rfl

theorem evalString_eq (spec : PrintfSpec) (p : U64) (s : U64 × σ) :
    evalString out mem spec p s = (stringText mem spec p).map fun text => emit out text s := by
  unfold evalString stringText
  simp only [outString_eq]
  cases stringChars mem spec.flags.precision
    (if spec.flags.precision then spec.precision.toNat else 2 ^ 64) p with
  | error fault => rfl
  | ok text =>
      exact congrArg Except.ok
        (field_eq out spec.flags.left (spec.width.toNat - (stringLength mem spec p).toNat) text s)

theorem evalSpecifier_eq (c : BitVec 8) (spec : PrintfSpec) (n : Nat) (s : U64 × σ) :
    evalSpecifier out mem va c spec n s =
      (specifierText mem va c spec n).map fun r => (r.1, emit out r.2 s) := by
  unfold evalSpecifier specifierText
  simp only [evalInt_eq, evalChar_eq, evalString_eq, evalPointer, ntoaLongLong, ntoaLong_eq]
  split
  · rfl
  · split
    · rfl
    · split
      · cases stringText mem spec (va n) <;> rfl
      · split
        · rfl
        · split
          · rename_i hPercent
            rw [hPercent]
            rfl
          · rfl

theorem formatStep_eq (format : Str) (n : Nat) (s : U64 × σ) :
    formatStep out mem va format n s =
      (stepText mem va format n).map fun r => (r.1, r.2.1, emit out r.2.2 s) := by
  unfold formatStep stepText
  split
  · rfl
  · simp only [evalSpecifier_eq]
    generalize evalOptions va format.tail n = options
    obtain ⟨spec, format, n⟩ := options
    simp only
    cases specifierText mem va (peek format) spec n with
    | error fault => rfl
    | ok r =>
        cases advance format <;> rfl

/-- The loop of `_vsnprintf` writes the text of the format. -/
theorem formatLoop_eq (fuel : Nat) (format : Str) (n : Nat) (s : U64 × σ) :
    formatLoop out mem va fuel format n s = (formatText mem va fuel format n).map fun text => emit out text s := by
  induction fuel generalizing format n s with
  | zero => cases format <;> rfl
  | succ fuel ih =>
      cases format with
      | nil => rfl
      | cons c format =>
          rw [formatLoop, formatText, formatStep_eq]
          cases stepText mem va (c :: format) n with
          | error fault => rfl
          | ok r =>
              show formatLoop out mem va fuel r.1 r.2.1 (emit out r.2.2 s) = _
              rw [ih]
              show _ = Except.map _ (Except.map _ (formatText mem va fuel r.1 r.2.1))
              cases formatText mem va fuel r.1 r.2.1 with
              | error fault => rfl
              | ok text => exact congrArg Except.ok (emit_append out s r.2.2 text).symm

end Interpreter

/-! ## The callers -/

/-- The number that `_vsnprintf` returns for a text. -/
def returned (text : Str) : Int := intOfSize (BitVec.ofNat 64 text.length)

section Callers

variable {mem : ByteMem} {va : Nat → U64} {format : Str}

theorem vsnprintfInternal_error {fault : PrintfFault} (h : formatText mem va format.length format 0 = .error fault)
    {σ : Type} (out : Out (BitVec 8) σ 64) (maxlen : U64) (sink : σ) :
    vsnprintfInternal out mem va maxlen format sink = .error fault := by
  unfold vsnprintfInternal
  rw [formatLoop_eq, h]
  rfl

theorem vsnprintfInternal_ok {text : Str} (h : formatText mem va format.length format 0 = .ok text)
    {σ : Type} (out : Out (BitVec 8) σ 64) (maxlen : U64) (sink : σ) :
    vsnprintfInternal out mem va maxlen format sink =
      .ok (returned text, out 0#8
        (if BitVec.ofNat 64 text.length < maxlen then BitVec.ofNat 64 text.length else maxlen - 1#64)
        (emit out text (0#64, sink)).2) := by
  have hIdx : (emit out text (0#64, sink)).1 = BitVec.ofNat 64 text.length := by
    rw [emit_fst, BitVec.zero_add]
  unfold vsnprintfInternal
  rw [formatLoop_eq, h, returned, ← hIdx]
  rfl

/-- What the serial port is sent: the characters but for `NUL`. -/
theorem emit_outChar (text : Str) (sent : List (BitVec 8)) :
    (emit outChar text (0#64, sent)).2 = sent ++ (text.filter (· ≠ 0#8)).flatMap uartPutc := by
  have hFold : ∀ (text : Str) (sent : List (BitVec 8)),
      text.foldl (fun sent c => if c ≠ 0#8 then sent ++ uartPutc c else sent) sent =
        sent ++ (text.filter (· ≠ 0#8)).flatMap uartPutc := by
    intro text
    induction text with
    | nil => intro sent; simp
    | cons c text ih =>
        intro sent
        rw [List.foldl_cons, ih]
        by_cases hNul : c = 0#8
        · simp [hNul]
        · simp [hNul]
  exact (emit_foldl (fun c i s => (rfl : outChar c i s = _)) text (0#64, sent)).trans (hFold text sent)

theorem emit_outFct {σ : Type} (fct : BitVec 8 → σ → σ) (text : Str) (s : σ) :
    (emit (outFct fct) text (0#64, s)).2 = (text.filter (· ≠ 0#8)).foldl (fun s c => fct c s) s := by
  have hFold : ∀ (text : Str) (s : σ), text.foldl (fun s c => if c ≠ 0#8 then fct c s else s) s =
      (text.filter (· ≠ 0#8)).foldl (fun s c => fct c s) s := by
    intro text
    induction text with
    | nil => intro s; rfl
    | cons c text ih =>
        intro s
        rw [List.foldl_cons, ih]
        by_cases hNul : c = 0#8
        · simp [hNul]
        · simp [hNul]
  exact (emit_foldl (fun c i s => (rfl : outFct fct c i s = _)) text (0#64, s)).trans (hFold text s)

theorem emit_outNull {σ : Type} (text : Str) (s : σ) : (emit outNull text (0#64, s)).2 = s :=
  (emit_foldl (fun c i s => (rfl : outNull c i s = s)) text (0#64, s)).trans (List.foldl_fixed _)

/-- The buffer of `maxlen` bytes at `buffer` has the text, cut off so that there is room for the terminator; no
other byte of `m` is changed. -/
def HasText (buffer maxlen : U64) (text : Str) (m m' : ByteMem) : Prop :=
  ∀ a : U64, m' a =
    if h : (a - buffer).toNat < text.length ∧ (a - buffer).toNat + 1 < maxlen.toNat then
      text.get ⟨(a - buffer).toNat, h.1⟩
    else if (a - buffer).toNat = min text.length (maxlen.toNat - 1) ∧ 0 < maxlen.toNat then 0#8
    else m a

theorem hasText_outBuffer (buffer maxlen : U64) {text : Str} (hLength : text.length < 2 ^ 64) (m : ByteMem) :
    HasText buffer maxlen text m (outBuffer buffer maxlen 0#8
      (if BitVec.ofNat 64 text.length < maxlen then BitVec.ofNat 64 text.length else maxlen - 1#64)
      (emit (outBuffer buffer maxlen) text (0#64, m)).2) := by
  intro a
  have hIdx : (BitVec.ofNat 64 text.length).toNat = text.length := by
    rw [BitVec.toNat_ofNat, Nat.mod_eq_of_lt hLength]
  have hMax := maxlen.isLt
  have hText := emit_bounded buffer maxlen m text hLength a
  rw [outBuffer, bounded_apply, hText]
  simp only [BitVec.lt_def, hIdx]
  by_cases hFits : text.length < maxlen.toNat
  · rw [if_pos hFits, hIdx]
    by_cases hEnd : (a - buffer).toNat = text.length
    · rw [if_pos ⟨hEnd, hFits⟩, dif_neg (by omega), if_pos (by omega)]
    · rw [if_neg fun h => hEnd h.1]
      by_cases hIn : (a - buffer).toNat < text.length
      · rw [dif_pos ⟨hIn, by omega⟩, dif_pos ⟨hIn, by omega⟩]
      · rw [dif_neg fun h => hIn h.1, dif_neg fun h => hIn h.1, if_neg (by omega)]
  · rw [if_neg hFits]
    by_cases hRoom : maxlen.toNat = 0
    · have hNone : ¬ (maxlen - 1#64).toNat < maxlen.toNat := by omega
      rw [if_neg fun h => hNone h.2, dif_neg (by omega), dif_neg (by omega), if_neg (by omega)]
    · have hLast : (maxlen - 1#64).toNat = maxlen.toNat - 1 := by
        rw [BitVec.toNat_sub, BitVec.toNat_ofNat]
        omega
      rw [hLast]
      by_cases hEnd : (a - buffer).toNat = maxlen.toNat - 1
      · rw [if_pos ⟨hEnd, by omega⟩, dif_neg (by omega), if_pos (by omega)]
      · rw [if_neg fun h => hEnd h.1]
        by_cases hIn : (a - buffer).toNat < maxlen.toNat
        · rw [dif_pos ⟨by omega, hIn⟩, dif_pos ⟨by omega, by omega⟩]
        · rw [dif_neg fun h => hIn h.2, dif_neg (by omega), if_neg (by omega)]

end Callers

end Rayos
