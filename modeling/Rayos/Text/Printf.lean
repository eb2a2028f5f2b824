import Rayos.Dev.UartLine
import Rayos.Lib.CString
import Rayos.Lib.OutStream
import Rayos.Mem.StringCopy

/-!
# Formatted output (`printf.c`)

`_vsnprintf` reads the format one directive at a time and writes through an output function; `printf`, `sprintf`,
`snprintf` and `fctprintf` differ in that function only.  The format is a C string, the arguments are the 64-bit
slots that `va_arg` takes one after the other, and a string argument is an address in memory.

The local array `buf` of the number conversions is the list of the characters that have been stored to it.
-/

namespace Rayos

open CString OutStream

/-- `unsigned int`. -/
abbrev U32 := BitVec 32

/-- A character of the source. -/
def ch (c : Char) : BitVec 8 := BitVec.ofNat 8 c.toNat

/-- `PRINTF_NTOA_BUFFER_SIZE`. -/
def ntoaBufferSize : Nat := 32

/-- `FLAGS_ZEROPAD` and so on. -/
structure PrintfFlags where
  zeropad : Bool := false
  left : Bool := false
  plus : Bool := false
  space : Bool := false
  hash : Bool := false
  uppercase : Bool := false
  char : Bool := false
  short : Bool := false
  long : Bool := false
  longLong : Bool := false
  precision : Bool := false
  deriving DecidableEq

/-- What C leaves undefined. -/
inductive PrintfFault where
  /-- The format is read behind its terminator. -/
  | overrun
  /-- A string argument has no terminator in all of memory. -/
  | endless
  deriving DecidableEq

/-! ## Reading -/

/-- `*format`. -/
def peek : Str → BitVec 8
  | [] => 0#8
  | c :: _ => c

/-- `format++`. -/
def advance : Str → Except PrintfFault Str
  | [] => .error .overrun
  | _ :: format => .ok format

/-- `_is_digit`. -/
def isDigit (c : BitVec 8) : Bool := ch '0' ≤ c ∧ c ≤ ch '9'

/-- `_atoi`, from the value `i` on. -/
def atoi : U32 → Str → U32 × Str
  | i, [] => (i, [])
  | i, c :: str =>
      if isDigit c then atoi (i * 10#32 + (c - ch '0').setWidth 32) str else (i, c :: str)

/-- `_strnlen_s`, before the conversion of the result. -/
def strnlenS (mem : ByteMem) : Nat → U64 → Nat
  | 0, _ => 0
  | maxsize + 1, s => if mem s = 0#8 then 0 else strnlenS mem maxsize (s + 1#64) + 1

/-! ## Numbers -/

section Numbers

/-- `while ((len < limit) && (len < PRINTF_NTOA_BUFFER_SIZE)) buf[len++] = '0'`, for at most `fuel` rounds. -/
def ntoaZeros (limit : Nat) : Nat → Str → Str
  | 0, buf => buf
  | fuel + 1, buf =>
      if buf.length < limit ∧ buf.length < ntoaBufferSize then ntoaZeros limit fuel (buf ++ [ch '0']) else buf

/-- `if (len < PRINTF_NTOA_BUFFER_SIZE) buf[len++] = c`. -/
def ntoaPush (c : BitVec 8) (buf : Str) : Str := if buf.length < ntoaBufferSize then buf ++ [c] else buf

/-- The width that `_ntoa_format` leaves when it pads with zeros: the sign takes a place. -/
def ntoaWidth (negative : Bool) (width : U32) (flags : PrintfFlags) : U32 :=
  if width ≠ 0#32 ∧ flags.zeropad ∧ (negative ∨ flags.plus ∨ flags.space) then width - 1#32 else width

/-- The leading zeros. -/
def ntoaPad (negative : Bool) (prec width : U32) (flags : PrintfFlags) (buf : Str) : Str × U32 :=
  if flags.left then (buf, width)
  else
    let width := ntoaWidth negative width flags
    let buf := ntoaZeros prec.toNat ntoaBufferSize buf
    let buf := if flags.zeropad then ntoaZeros width.toNat ntoaBufferSize buf else buf
    (buf, width)

/-- The prefix that `#` asks for; it takes the place of zeros that have been padded. -/
def ntoaHash (base : U64) (prec width : U32) (flags : PrintfFlags) (buf : Str) : Str :=
  if flags.hash then
    let buf :=
      if ¬ flags.precision ∧ buf.length ≠ 0 ∧ (buf.length = prec.toNat ∨ buf.length = width.toNat) then
        let buf := buf.dropLast
        if buf.length ≠ 0 ∧ base = 16#64 then buf.dropLast else buf
      else buf
    let buf :=
      if base = 16#64 ∧ ¬ flags.uppercase ∧ buf.length < ntoaBufferSize then buf ++ [ch 'x']
      else if base = 16#64 ∧ flags.uppercase ∧ buf.length < ntoaBufferSize then buf ++ [ch 'X']
      else if base = 2#64 ∧ buf.length < ntoaBufferSize then buf ++ [ch 'b']
      else buf
    ntoaPush (ch '0') buf
  else buf

/-- The sign. -/
def ntoaSign (negative : Bool) (flags : PrintfFlags) (buf : Str) : Str :=
  if negative then ntoaPush (ch '-') buf
  else if flags.plus then ntoaPush (ch '+') buf
  else if flags.space then ntoaPush (ch ' ') buf
  else buf

/-- The digit as it is stored. -/
def ntoaDigit (uppercase : Bool) (digit : BitVec 8) : BitVec 8 :=
  if digit < 10#8 then ch '0' + digit else (if uppercase then ch 'A' else ch 'a') + digit - 10#8

/-- `do … while (value && (len < PRINTF_NTOA_BUFFER_SIZE))`: the digits, the last one first. -/
def ntoaDigits (uppercase : Bool) (base : U64) : Nat → U64 → Str → Str
  | 0, _, buf => buf
  | fuel + 1, value, buf =>
      let buf := buf ++ [ntoaDigit uppercase ((value % base).setWidth 8)]
      let value := value / base
      if value ≠ 0#64 ∧ buf.length < ntoaBufferSize then ntoaDigits uppercase base fuel value buf else buf

/-- What `_ntoa_long` and `_ntoa_format` have stored to `buf` before they write it, and the width that is left. -/
def ntoaText (value : U64) (negative : Bool) (base : U64) (prec width : U32) (flags : PrintfFlags) : Str × U32 :=
  let hash := if value = 0#64 then false else flags.hash
  let flags := { flags with hash := hash }
  let buf := if ¬ flags.precision ∨ value ≠ 0#64 then ntoaDigits flags.uppercase base ntoaBufferSize value [] else []
  let (buf, width) := ntoaPad negative prec width flags buf
  let buf := ntoaHash base prec width flags buf
  (ntoaSign negative flags buf, width)

end Numbers

/-! ## Writing -/

section Writing

variable {σ : Type} (out : Out (BitVec 8) σ 64)

/-- `n` rounds of `out(' ', buffer, idx++, maxlen)`. -/
def outSpaces : Nat → U64 × σ → U64 × σ
  | 0, s => s
  | n + 1, s => outSpaces n (put out (ch ' ') s)

/-- `while (len) out(buf[--len], buffer, idx++, maxlen)`. -/
def outBackwards (buf : Str) : Nat → U64 × σ → U64 × σ
  | 0, s => s
  | len + 1, s => outBackwards buf len (put out (buf.getD len 0#8) s)

/-- `while (idx - start_idx < width) out(' ', buffer, idx++, maxlen)`, for at most `fuel` rounds. -/
def outUpTo (startIdx : U64) (width : U32) : Nat → U64 × σ → U64 × σ
  | 0, s => s
  | fuel + 1, s =>
      if s.1 - startIdx < width.setWidth 64 then outUpTo startIdx width fuel (put out (ch ' ') s) else s

/-- `_out_rev`. -/
def outRev (buf : Str) (width : U32) (flags : PrintfFlags) (s : U64 × σ) : U64 × σ :=
  let startIdx := s.1
  let s := if ¬ flags.left ∧ ¬ flags.zeropad then outSpaces out (width.toNat - buf.length) s else s
  let s := outBackwards out buf buf.length s
  if flags.left then outUpTo out startIdx width width.toNat s else s

/-- `_ntoa_long`, with `_ntoa_format` at its end. -/
def ntoaLong (value : U64) (negative : Bool) (base : U64) (prec width : U32) (flags : PrintfFlags) (s : U64 × σ) :
    U64 × σ :=
  let (buf, width) := ntoaText value negative base prec width flags
  outRev out buf width flags s

/-- `_ntoa_long_long`: `long long` is as long as `long`. -/
def ntoaLongLong (value : U64) (negative : Bool) (base : U64) (prec width : U32) (flags : PrintfFlags)
    (s : U64 × σ) : U64 × σ := ntoaLong out value negative base prec width flags s

/-- `while ((*p != 0) && (!(flags & FLAGS_PRECISION) || precision--)) out(*(p++), buffer, idx++, maxlen)`; `n` is
the precision, or the number of all addresses if there is none. -/
def outString (mem : ByteMem) (hasPrecision : Bool) : Nat → U64 → U64 × σ → Except PrintfFault (U64 × σ)
  | 0, p, s => if hasPrecision ∨ mem p = 0#8 then .ok s else .error .endless
  | n + 1, p, s =>
      if mem p = 0#8 then .ok s else outString mem hasPrecision n (p + 1#64) (put out (mem p) s)

end Writing

/-! ## The arguments of the integer conversions -/

/-- The magnitude and the sign of the argument of `%d`; `0 - value` wraps for the least value. -/
def signedArg (flags : PrintfFlags) (x : U64) : U64 × Bool :=
  if flags.longLong ∨ flags.long then (if (0#64).slt x then x else 0#64 - x, x.slt 0#64)
  else
    let value : U32 :=
      if flags.char then (x.setWidth 8).signExtend 32
      else if flags.short then (x.setWidth 16).signExtend 32
      else x.setWidth 32
    ((if (0#32).slt value then value else 0#32 - value).setWidth 64, value.slt 0#32)

/-- The argument of the other ones. -/
def unsignedArg (flags : PrintfFlags) (x : U64) : U64 :=
  if flags.longLong ∨ flags.long then x
  else if flags.char then (x.setWidth 8).setWidth 64
  else if flags.short then (x.setWidth 16).setWidth 64
  else (x.setWidth 32).setWidth 64

/-- `base`. -/
def baseOf (c : BitVec 8) : U64 :=
  if c = ch 'x' ∨ c = ch 'X' then 16#64 else if c = ch 'o' then 8#64 else if c = ch 'b' then 2#64 else 10#64

/-- `%d`, `%i`. -/
def isSigned (c : BitVec 8) : Bool := c = ch 'i' ∨ c = ch 'd'

/-- The flags of an integer conversion. -/
def intFlags (c : BitVec 8) (flags : PrintfFlags) : PrintfFlags :=
  { flags with
    hash := if baseOf c = 10#64 then false else flags.hash
    uppercase := if c = ch 'X' then true else flags.uppercase
    plus := if isSigned c then flags.plus else false
    space := if isSigned c then flags.space else false
    zeropad := if flags.precision then false else flags.zeropad }

/-! ## Directives -/

/-- The flags, the width and the precision of a directive. -/
structure PrintfSpec where
  flags : PrintfFlags
  width : U32
  precision : U32

/-- The flag that a character sets. -/
def flagOf (c : BitVec 8) : Option (PrintfFlags → PrintfFlags) :=
  if c = ch '0' then some fun flags => { flags with zeropad := true }
  else if c = ch '-' then some fun flags => { flags with left := true }
  else if c = ch '+' then some fun flags => { flags with plus := true }
  else if c = ch ' ' then some fun flags => { flags with space := true }
  else if c = ch '#' then some fun flags => { flags with hash := true }
  else none

/-- The loop over the flags. -/
def evalFlags : PrintfFlags → Str → PrintfFlags × Str
  | flags, [] => (flags, [])
  | flags, c :: format =>
      match flagOf c with
      | some set => evalFlags (set flags) format
      | none => (flags, c :: format)

section Arguments

variable (va : Nat → U64)

/-- The width field; `n` arguments have been taken. -/
def evalWidth (flags : PrintfFlags) (format : Str) (n : Nat) : PrintfFlags × U32 × Str × Nat :=
  if isDigit (peek format) then
    let (width, format) := atoi 0#32 format
    (flags, width, format, n)
  else if peek format = ch '*' then
    let w : U32 := (va n).setWidth 32
    if w.slt 0#32 then ({ flags with left := true }, -w, format.tail, n + 1) else (flags, w, format.tail, n + 1)
  else (flags, 0#32, format, n)

/-- The precision field. -/
def evalPrecision (flags : PrintfFlags) (format : Str) (n : Nat) : PrintfFlags × U32 × Str × Nat :=
  if peek format = ch '.' then
    let flags := { flags with precision := true }
    let format := format.tail
    if isDigit (peek format) then
      let (precision, format) := atoi 0#32 format
      (flags, precision, format, n)
    else if peek format = ch '*' then
      let prec : U32 := (va n).setWidth 32
      (flags, if (0#32).slt prec then prec else 0#32, format.tail, n + 1)
    else (flags, 0#32, format, n)
  else (flags, 0#32, format, n)

/-- The length field. -/
def evalLength (flags : PrintfFlags) (format : Str) : PrintfFlags × Str :=
  if peek format = ch 'l' then
    if peek format.tail = ch 'l' then ({ flags with long := true, longLong := true }, format.tail.tail)
    else ({ flags with long := true }, format.tail)
  else if peek format = ch 'h' then
    if peek format.tail = ch 'h' then ({ flags with short := true, char := true }, format.tail.tail)
    else ({ flags with short := true }, format.tail)
  else if peek format = ch 't' ∨ peek format = ch 'j' ∨ peek format = ch 'z' then
    ({ flags with long := true }, format.tail)
  else (flags, format)

/-- What stands between `%` and the specifier. -/
def evalOptions (format : Str) (n : Nat) : PrintfSpec × Str × Nat :=
  let (flags, format) := evalFlags {} format
  let (flags, width, format, n) := evalWidth va flags format n
  let (flags, precision, format, n) := evalPrecision va flags format n
  let (flags, format) := evalLength flags format
  (⟨flags, width, precision⟩, format, n)

end Arguments

section Interpreter

variable {σ : Type} (out : Out (BitVec 8) σ 64) (mem : ByteMem) (va : Nat → U64)

/-- `%d`, `%i`, `%u`, `%x`, `%X`, `%o` and `%b`. -/
def evalInt (c : BitVec 8) (spec : PrintfSpec) (x : U64) (s : U64 × σ) : U64 × σ :=
  let flags := intFlags c spec.flags
  if isSigned c then
    let (value, negative) := signedArg flags x
    if flags.longLong then ntoaLongLong out value negative (baseOf c) spec.precision spec.width flags s
    else ntoaLong out value negative (baseOf c) spec.precision spec.width flags s
  else
    let value := unsignedArg flags x
    if flags.longLong then ntoaLongLong out value false (baseOf c) spec.precision spec.width flags s
    else ntoaLong out value false (baseOf c) spec.precision spec.width flags s

/-- `%c`. -/
def evalChar (spec : PrintfSpec) (x : U64) (s : U64 × σ) : U64 × σ :=
  let s := if ¬ spec.flags.left then outSpaces out (spec.width.toNat - 1) s else s
  let s := put out (x.setWidth 8) s
  if spec.flags.left then outSpaces out (spec.width.toNat - 1) s else s

/-- `%s`. -/
def evalString (spec : PrintfSpec) (p : U64) (s : U64 × σ) : Except PrintfFault (U64 × σ) := do
  let maxsize := if spec.precision ≠ 0#32 then spec.precision.toNat else 2 ^ 64 - 1
  let l : U32 := BitVec.ofNat 32 (strnlenS mem maxsize p)
  let l := if spec.flags.precision then (if l < spec.precision then l else spec.precision) else l
  let s := if ¬ spec.flags.left then outSpaces out (spec.width.toNat - l.toNat) s else s
  let s ← outString out mem spec.flags.precision
    (if spec.flags.precision then spec.precision.toNat else 2 ^ 64) p s
  pure (if spec.flags.left then outSpaces out (spec.width.toNat - l.toNat) s else s)

/-- `%p`. -/
def evalPointer (spec : PrintfSpec) (x : U64) (s : U64 × σ) : U64 × σ :=
  ntoaLongLong out x false 16#64 spec.precision 16#32 { spec.flags with zeropad := true, uppercase := true } s

/-- The specifiers that convert an integer. -/
def isIntSpecifier (c : BitVec 8) : Bool :=
  c = ch 'd' ∨ c = ch 'i' ∨ c = ch 'u' ∨ c = ch 'x' ∨ c = ch 'X' ∨ c = ch 'o' ∨ c = ch 'b'

/-- The specifier `c`, with the number of arguments taken and the output so far. -/
def evalSpecifier (c : BitVec 8) (spec : PrintfSpec) (n : Nat) (s : U64 × σ) :
    Except PrintfFault (Nat × (U64 × σ)) := do
  if isIntSpecifier c then pure (n + 1, evalInt out c spec (va n) s)
  else if c = ch 'c' then pure (n + 1, evalChar out spec (va n) s)
  else if c = ch 's' then
    let s ← evalString out mem spec (va n) s
    pure (n + 1, s)
  else if c = ch 'p' then pure (n + 1, evalPointer out spec (va n) s)
  else if c = ch '%' then pure (n, put out (ch '%') s)
  else pure (n, put out c s)

/-- A round of the loop of `_vsnprintf`, at a format that does not end here. -/
def formatStep (format : Str) (n : Nat) (s : U64 × σ) : Except PrintfFault (Str × Nat × (U64 × σ)) := do
  if peek format ≠ ch '%' then pure (format.tail, n, put out (peek format) s)
  else
    let (spec, format, n) := evalOptions va format.tail n
    let (n, s) ← evalSpecifier out mem va (peek format) spec n s
    -- a directive that the terminator cuts off has `0` for its specifier, and is left behind it
    let format ← advance format
    pure (format, n, s)

/-- The loop of `_vsnprintf`, for at most `fuel` rounds. -/
def formatLoop : Nat → Str → Nat → U64 × σ → Except PrintfFault (U64 × σ)
  | _, [], _, s => .ok s
  | 0, _ :: _, _, _ => .error .overrun
  | fuel + 1, c :: format, n, s => do
      let (format, n, s) ← formatStep out mem va (c :: format) n s
      formatLoop fuel format n s

/-- `_vsnprintf`, with the output function applied to `buffer` and `maxlen`. -/
def vsnprintfInternal (maxlen : U64) (format : Str) (sink : σ) : Except PrintfFault (Int × σ) := do
  let (idx, sink) ← formatLoop out mem va format.length format 0 (0#64, sink)
  -- the terminator
  let sink := out 0#8 (if idx < maxlen then idx else maxlen - 1#64) sink
  pure (intOfSize idx, sink)

end Interpreter

/-! ## The output functions and their callers -/

/-- `_out_buffer`. -/
def outBuffer (buffer maxlen : U64) : Out (BitVec 8) ByteMem 64 := bounded buffer maxlen

/-- `_out_null`. -/
def outNull {σ : Type} : Out (BitVec 8) σ 64 := fun _ _ s => s

/-- `_out_char`: the bytes that the serial port has been sent. -/
def outChar : Out (BitVec 8) (List (BitVec 8)) 64 := fun c _ sent => if c ≠ 0#8 then sent ++ uartPutc c else sent

/-- `_out_fct`, for a function that changes a state. -/
def outFct {σ : Type} (fct : BitVec 8 → σ → σ) : Out (BitVec 8) σ 64 := fun c _ s => if c ≠ 0#8 then fct c s else s

/-- `SIZE_MAX`, as the callers write it. -/
def sizeMax : U64 := -1#64

section Callers

variable (mem : ByteMem) (va : Nat → U64)

/-- `printf_`. -/
def printf (format : Str) (sent : List (BitVec 8)) : Except PrintfFault (Int × List (BitVec 8)) :=
  vsnprintfInternal outChar mem va sizeMax format sent

/-- `vsnprintf_`. -/
def vsnprintf (buffer count : U64) (format : Str) (m : ByteMem) : Except PrintfFault (Int × ByteMem) :=
  vsnprintfInternal (if buffer = 0#64 then outNull else outBuffer buffer count) mem va count format m

/-- `snprintf_`. -/
def snprintf (buffer count : U64) (format : Str) (m : ByteMem) : Except PrintfFault (Int × ByteMem) :=
  vsnprintf mem va buffer count format m

/-- `sprintf_`. -/
def sprintf (buffer : U64) (format : Str) (m : ByteMem) : Except PrintfFault (Int × ByteMem) :=
  vsnprintfInternal (if buffer = 0#64 then outNull else outBuffer buffer sizeMax) mem va sizeMax format m

/-- `fctprintf`. -/
def fctprintf {σ : Type} (fct : BitVec 8 → σ → σ) (format : Str) (s : σ) : Except PrintfFault (Int × σ) :=
  vsnprintfInternal (outFct fct) mem va sizeMax format s

end Callers

end Rayos
