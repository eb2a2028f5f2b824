import Rayos.Dev.Uart

/-!
# Line input from the serial port (`uart_gets` in `uart.c`)

`uart_gets` stores the bytes that `uart_getc` returns until the line ends, with backspace as the only way
to take a byte back.  The input is the list of all bytes that arrive; a call that has read all of them
without returning waits for the next one.

The state has two histories that the call does not read: the indices of `s` that were stored to and the
bytes that were sent back.
-/

namespace Rayos

/-- The bytes that `uart_putc` writes to the port. -/
def uartPutc (c : BitVec 8) : List (BitVec 8) :=
  if c = 0x0a#8 then [0x0d#8, c] else if c = 0x0d#8 then [0x0a#8, c] else [c]

/-- The locals of `uart_gets`, the buffer `s` and the histories. -/
structure Gets where
  s : Nat → BitVec 8
  count : Nat
  stores : List Nat
  sent : List (BitVec 8)

/-- How the call ends, if it does. -/
inductive GetsResult where
  /-- `s` is returned. -/
  | line
  /-- `NULL` is returned. -/
  | null
  /-- The call waits for a byte. -/
  | waiting
  deriving DecidableEq

/-- `s[count] = ch`. -/
def Gets.store (g : Gets) (ch : BitVec 8) : Gets :=
  { g with s := Function.update g.s g.count ch, stores := g.stores ++ [g.count] }

/-- `uart_putc(ch)`. -/
def Gets.putc (g : Gets) (ch : BitVec 8) : Gets := { g with sent := g.sent ++ uartPutc ch }

/-- The body of the loop of `uart_gets`; the first component tells that it returned `s`. -/
def uartGetsByte (g : Gets) (ch : BitVec 8) : Bool × Gets :=
  if 32#8 ≤ ch ∧ ch ≤ 127#8 then
    let g := (g.putc ch).store ch
    (false, { g with count := g.count + 1 })
  else if ch = 0x0d#8 ∨ ch = 0x0a#8 ∨ ch = 0#8 then
    (true, (g.putc ch).store ch)
  else if ch = 0x8#8 then
    if g.count ≠ 0 then (false, { g.putc ch with count := g.count - 1 }) else (false, g)
  else (false, g)

/-- The loop of `uart_gets`. -/
def uartGetsFrom : List (BitVec 8) → Gets → GetsResult × Gets
  | [], g => if g.count < uartBufSize then (.waiting, g) else (.null, g)
  | ch :: input, g =>
      if g.count < uartBufSize then
        match uartGetsByte g ch with
        | (true, g) => (.line, g)
        | (false, g) => uartGetsFrom input g
      else (.null, g)

/-- `uart_gets`. -/
def uartGets (input : List (BitVec 8)) (s : Nat → BitVec 8) : GetsResult × Gets :=
  uartGetsFrom input ⟨s, 0, [], []⟩

/-! ## The edited line -/

/-- CR, LF or NUL. -/
def EndsLine (ch : BitVec 8) : Prop := ch = 0x0d#8 ∨ ch = 0x0a#8 ∨ ch = 0#8

/-- What a byte that does not end the line does to it. -/
def editByte (text : List (BitVec 8)) (ch : BitVec 8) : List (BitVec 8) :=
  if 32#8 ≤ ch ∧ ch ≤ 127#8 then text ++ [ch] else if ch = 0x8#8 then text.dropLast else text

/-- The line after the bytes of `input`. -/
def edited (input : List (BitVec 8)) : List (BitVec 8) := input.foldl editByte []

/-- Before the line ends `uart_gets` has read the bytes `typed`, and the line is full then. -/
def FillsLine (typed input : List (BitVec 8)) : Prop :=
  typed <+: input ∧ (∀ ch ∈ typed, ¬ EndsLine ch) ∧ (edited typed).length = uartBufSize

/-! ## The buffer holds the edited line -/

/-- The first `count` bytes of the buffer are the line, and nothing was stored outside of it. -/
structure Gets.HasLine (g : Gets) (text : List (BitVec 8)) : Prop where
  count : g.count = text.length
  bytes : ∀ i, i < text.length → text[i]? = some (g.s i)
  stores : ∀ i ∈ g.stores, i < uartBufSize

section Step

variable {g : Gets} {text : List (BitVec 8)} {ch : BitVec 8}

/-- The store of a byte after the line. -/
theorem Gets.HasLine.store (h : g.HasLine text) (hRoom : text.length < uartBufSize) (ch : BitVec 8) :
    ((g.putc ch).store ch).HasLine text ∧ ((g.putc ch).store ch).s text.length = ch := by
  have hCount := h.count
  constructor
  · constructor
    · exact hCount
    · intro i hi
      show text[i]? = some (Function.update g.s g.count ch i)
      rw [Function.update_of_ne (by omega)]
      exact h.bytes i hi
    · intro i hi
      rcases List.mem_append.mp hi with hi | hi
      · exact h.stores i hi
      · rw [List.mem_singleton.mp hi]
        show g.count < uartBufSize
        omega
  · show Function.update g.s g.count ch text.length = ch
    rw [hCount, Function.update_self]

/-- A byte that does not end the line is applied to it. -/
theorem Gets.HasLine.byte (h : g.HasLine text) (hRoom : text.length < uartBufSize) (hOpen : ¬ EndsLine ch) :
    ∃ g', uartGetsByte g ch = (false, g') ∧ g'.HasLine (editByte text ch) := by
  unfold uartGetsByte editByte
  by_cases hPrint : 32#8 ≤ ch ∧ ch ≤ 127#8
  · rw [if_pos hPrint, if_pos hPrint]
    obtain ⟨hLine, hByte⟩ := h.store hRoom ch
    refine ⟨_, rfl, ?_, ?_, hLine.stores⟩
    · show g.count + 1 = (text ++ [ch]).length
      rw [h.count, List.length_append, List.length_singleton]
    · intro i hi
      rw [List.length_append, List.length_singleton] at hi
      by_cases hLast : i = text.length
      · rw [hLast, List.getElem?_concat_length]
        exact congrArg some hByte.symm
      · rw [List.getElem?_append_left (by omega)]
        exact hLine.bytes i (by omega)
  · have hGoesOn : ¬ (ch = 0x0d#8 ∨ ch = 0x0a#8 ∨ ch = 0#8) := hOpen
    rw [if_neg hPrint, if_neg hPrint, if_neg hGoesOn]
    by_cases hBack : ch = 0x8#8
    · rw [if_pos hBack, if_pos hBack]
      by_cases hSome : g.count ≠ 0
      · -- backspace: the byte stays in the buffer, the line no longer has it
        rw [if_pos hSome]
        refine ⟨_, rfl, ?_, ?_, h.stores⟩
        · show g.count - 1 = text.dropLast.length
          rw [h.count, List.length_dropLast]
        · intro i hi
          rw [List.length_dropLast] at hi
          rw [List.getElem?_dropLast, if_pos hi]
          exact h.bytes i (by omega)
      · rw [if_neg hSome]
        have hNil : text = [] := by
          apply List.eq_nil_of_length_eq_zero
          have := h.count
          omega
        subst hNil
        exact ⟨g, rfl, h⟩
    · rw [if_neg hBack, if_neg hBack]
      exact ⟨g, rfl, h⟩

/-- A byte that ends the line is stored after it. -/
theorem uartGetsByte_end (hEnd : EndsLine ch) : uartGetsByte g ch = (true, (g.putc ch).store ch) := by
  have hPrint : ¬ (32#8 ≤ ch ∧ ch ≤ 127#8) := by
    rcases hEnd with rfl | rfl | rfl <;> decide
  have hReturns : ch = 0x0d#8 ∨ ch = 0x0a#8 ∨ ch = 0#8 := hEnd
  unfold uartGetsByte
  rw [if_neg hPrint, if_pos hReturns]

/-- A step changes the length by at most one, so a line that is too long was full before. -/
theorem editByte_length (text : List (BitVec 8)) (ch : BitVec 8) :
    (editByte text ch).length ≤ text.length + 1 := by
  unfold editByte
  split
  · rw [List.length_append, List.length_singleton]
  · split
    · rw [List.length_dropLast]
      omega
    · omega

end Step

/-! ## Runs -/

/-- The ways a call that has `line` in its buffer goes on. -/
inductive GetsRun (text : List (BitVec 8)) (input : List (BitVec 8)) : GetsResult × Gets → Prop where
  | line {typed rest : List (BitVec 8)} {term : BitVec 8} {g : Gets} (split : input = typed ++ term :: rest)
      (opens : ∀ ch ∈ typed, ¬ EndsLine ch) (ends : EndsLine term)
      (room : ∀ p, p <+: typed → (p.foldl editByte text).length < uartBufSize)
      (holds : g.HasLine (typed.foldl editByte text)) (last : g.s (typed.foldl editByte text).length = term) :
      GetsRun text input (.line, g)
  | null {typed : List (BitVec 8)} {g : Gets} (first : typed <+: input) (opens : ∀ ch ∈ typed, ¬ EndsLine ch)
      (full : (typed.foldl editByte text).length = uartBufSize)
      (holds : g.HasLine (typed.foldl editByte text)) : GetsRun text input (.null, g)
  | waiting {g : Gets} (opens : ∀ ch ∈ input, ¬ EndsLine ch)
      (room : ∀ p, p <+: input → (p.foldl editByte text).length < uartBufSize)
      (holds : g.HasLine (input.foldl editByte text)) : GetsRun text input (.waiting, g)

/-- A byte before the run. -/
theorem GetsRun.cons {text input : List (BitVec 8)} {ch : BitVec 8} {r : GetsResult × Gets}
    (hRoom : text.length < uartBufSize) (hOpen : ¬ EndsLine ch) (h : GetsRun (editByte text ch) input r) :
    GetsRun text (ch :: input) r := by
  have hPrefix : ∀ typed, (∀ p, p <+: typed → (p.foldl editByte (editByte text ch)).length < uartBufSize) →
      ∀ p, p <+: ch :: typed → (p.foldl editByte text).length < uartBufSize := by
    intro typed hAll p hp
    rcases List.prefix_cons_iff.mp hp with rfl | ⟨q, rfl, hq⟩
    · exact hRoom
    · exact hAll q hq
  cases h with
  | line split opens ends room holds last =>
      subst split
      exact .line (List.cons_append ..).symm (List.forall_mem_cons.mpr ⟨hOpen, opens⟩) ends (hPrefix _ room)
        holds last
  | null first opens full holds =>
      exact .null (List.prefix_cons_inj ch |>.mpr first) (List.forall_mem_cons.mpr ⟨hOpen, opens⟩) full holds
  | waiting opens room holds =>
      exact .waiting (List.forall_mem_cons.mpr ⟨hOpen, opens⟩) (hPrefix _ room) holds

/-- Before the first byte. -/
theorem room_nil {text : List (BitVec 8)} (hRoom : text.length < uartBufSize) :
    ∀ p, p <+: [] → (p.foldl editByte text).length < uartBufSize := by
  intro p hp
  rw [List.prefix_nil.mp hp]
  exact hRoom

/-- The loop, from any line on. -/
theorem uartGetsFrom_run (input : List (BitVec 8)) {g : Gets} {text : List (BitVec 8)} (h : g.HasLine text)
    (hMost : text.length ≤ uartBufSize) : GetsRun text input (uartGetsFrom input g) := by
  induction input generalizing g text with
  | nil =>
      unfold uartGetsFrom
      by_cases hRoom : g.count < uartBufSize
      · rw [if_pos hRoom]
        rw [h.count] at hRoom
        exact .waiting (List.forall_mem_nil _) (room_nil hRoom) h
      · rw [if_neg hRoom]
        rw [h.count] at hRoom
        exact .null List.nil_prefix (List.forall_mem_nil _) (show text.length = uartBufSize by omega) h
  | cons ch input ih =>
      unfold uartGetsFrom
      by_cases hRoom : g.count < uartBufSize
      · rw [if_pos hRoom]
        rw [h.count] at hRoom
        by_cases hEnd : EndsLine ch
        · rw [uartGetsByte_end hEnd]
          obtain ⟨hLine, hByte⟩ := h.store hRoom ch
          exact .line (List.nil_append _).symm (List.forall_mem_nil _) hEnd (room_nil hRoom) hLine hByte
        · obtain ⟨g', hStep, hLine⟩ := h.byte hRoom hEnd
          rw [hStep]
          have hLength := editByte_length text ch
          apply GetsRun.cons hRoom hEnd
          exact ih hLine (by omega)
      · rw [if_neg hRoom]
        rw [h.count] at hRoom
        exact .null List.nil_prefix (List.forall_mem_nil _) (show text.length = uartBufSize by omega) h

/-- A call that has returned does not depend on the bytes that arrive later. -/
theorem uartGetsFrom_append (input more : List (BitVec 8)) (g : Gets)
    (hDone : (uartGetsFrom input g).1 ≠ .waiting) : uartGetsFrom (input ++ more) g = uartGetsFrom input g := by
  induction input generalizing g with
  | nil =>
      unfold uartGetsFrom at hDone
      split at hDone
      · exact absurd rfl hDone
      · rename_i hFull
        cases more with
        | nil => rfl
        | cons ch more =>
            show (if g.count < uartBufSize then _ else (GetsResult.null, g)) =
              if g.count < uartBufSize then (GetsResult.waiting, g) else (GetsResult.null, g)
            rw [if_neg hFull, if_neg hFull]
  | cons ch input ih =>
      rw [List.cons_append]
      unfold uartGetsFrom at hDone ⊢
      by_cases hRoom : g.count < uartBufSize
      · rw [if_pos hRoom] at hDone
        rw [if_pos hRoom, if_pos hRoom]
        rcases hStep : uartGetsByte g ch with ⟨returned, g'⟩
        rw [hStep] at hDone
        cases returned with
        | true => rfl
        | false => exact ih g' hDone
      · rw [if_neg hRoom, if_neg hRoom]

/-- **Line input.**  When `s` is returned it holds the line as edited by the bytes before the first CR, LF or
NUL, with that byte after it; no index from `UART_BUF_SIZE` on is stored to; and `NULL` is returned exactly
when the line has `UART_BUF_SIZE` bytes before it ends. -/
theorem uartGets_line (input : List (BitVec 8)) (s : Nat → BitVec 8) :
    ((uartGets input s).1 = .line → ∃ typed term rest, input = typed ++ term :: rest ∧
        (∀ ch ∈ typed, ¬ EndsLine ch) ∧ EndsLine term ∧
        (∀ i, i < (edited typed).length → (edited typed)[i]? = some ((uartGets input s).2.s i)) ∧
        (uartGets input s).2.s (edited typed).length = term) ∧
      (∀ i ∈ (uartGets input s).2.stores, i < uartBufSize) ∧
      ((uartGets input s).1 = .null ↔ ∃ typed, FillsLine typed input) := by
  have hRun : GetsRun [] input (uartGets input s) := by
    apply uartGetsFrom_run
    · exact ⟨rfl, by simp, by simp⟩
    · exact Nat.zero_le _
  revert hRun
  generalize uartGets input s = r
  intro hRun
  -- a prefix that fills the line lies before the byte that ends it
  have hFills : ∀ typed, FillsLine typed input → ∀ before term rest, input = before ++ term :: rest →
      EndsLine term → typed <+: before := by
    rintro typed ⟨hFirst, hOpen, -⟩ before term rest hSplit hEnd
    rw [hSplit] at hFirst
    rcases List.prefix_or_prefix_of_prefix hFirst (List.prefix_append before _) with hIn | ⟨tail, rfl⟩
    · exact hIn
    · cases tail with
      | nil => rw [List.append_nil]
      | cons c tail =>
          have hHead := (List.prefix_append_right_inj before).mp hFirst
          have hTerm : c = term := (List.cons_prefix_cons.mp hHead).1
          rw [hTerm] at hOpen
          exact absurd hEnd (hOpen term (by simp))
  cases hRun with
  | line split opens ends room holds last =>
      refine ⟨fun _ => ⟨_, _, _, split, opens, ends, holds.bytes, last⟩, holds.stores, ?_⟩
      constructor
      · intro hNull
        cases hNull
      · rintro ⟨typed, hFull⟩
        have hShort := room typed (hFills typed hFull _ _ _ split ends)
        exact absurd hFull.2.2 (Nat.ne_of_lt hShort)
  | null first opens full holds =>
      refine ⟨fun hLine => ?_, holds.stores, fun _ => ⟨_, first, opens, full⟩, fun _ => rfl⟩
      cases hLine
  | waiting opens room holds =>
      refine ⟨fun hLine => ?_, holds.stores, ?_⟩
      · cases hLine
      · constructor
        · intro hNull
          cases hNull
        · rintro ⟨typed, hFirst, -, hLong⟩
          exact absurd hLong (Nat.ne_of_lt (room typed hFirst))

end Rayos
