import Rayos.Lib.RingBuffer
import Mathlib.Logic.Relation

/-!
# The receive ring of the serial port (`uart.c`)

`uart_isr_receive` writes to the ring and moves `head`, `uart_getc` reads from it and moves `tail`, and
there is no lock.  The two run one atomic step at a time in any order; the state has a program counter
for each of them.

The state also has a history that no code reads: the bytes that the handler has accepted, the bytes that
`uart_getc` has returned, and for every byte that was dropped the number of bytes that were unread then.
-/

namespace Rayos

open RingBuffer

/-- `UART_BUF_SIZE`. -/
def uartBufSize : Nat := 2048

/-- Where `uart_isr_receive` is. -/
inductive IsrPc where
  /-- Before the next byte is read from the port. -/
  | poll
  /-- `ch` and `next_head` are known, `tail` has not been read. -/
  | compare (ch : BitVec 8) (nextHead : Nat)
  /-- Before the byte is stored. -/
  | store (ch : BitVec 8) (nextHead : Nat)
  /-- Before `head` is moved. -/
  | advance (nextHead : Nat)
  deriving DecidableEq

/-- Where `uart_getc` is. -/
inductive GetcPc where
  /-- Not called. -/
  | idle
  /-- In the loop that waits for a byte. -/
  | compare
  /-- Before the byte is loaded. -/
  | load
  /-- Before `tail` is moved. -/
  | advance (ch : BitVec 8)
  deriving DecidableEq

/-- `uart_rx_buf`, the two program counters and the history. -/
structure Uart where
  data : Nat → BitVec 8
  head : Nat
  tail : Nat
  isr : IsrPc
  getc : GetcPc
  accepted : List (BitVec 8)
  returned : List (BitVec 8)
  dropped : List Nat

/-- The ring as `uart_init` leaves it; `kzalloc` clears the buffer. -/
def uartInit : Uart where
  data := fun _ => 0#8
  head := 0
  tail := 0
  isr := .poll
  getc := .idle
  accepted := []
  returned := []
  dropped := []

/-- One step of `uart_isr_receive`; `ch` is the byte that the port delivers when it is polled. -/
def uartIsrReceive (ch : BitVec 8) (s : Uart) : Uart :=
  match s.isr with
  | .poll => { s with isr := .compare ch ((s.head + 1) % uartBufSize) }
  | .compare ch nextHead =>
      if nextHead ≠ s.tail then { s with isr := .store ch nextHead, accepted := s.accepted ++ [ch] }
      else { s with isr := .poll, dropped := s.dropped ++ [s.accepted.length - s.returned.length] }
  | .store ch nextHead =>
      { s with data := Function.update s.data s.head ch, isr := .advance nextHead }
  | .advance nextHead => { s with head := nextHead, isr := .poll }

/-- One step of `uart_getc`, the call included. -/
def uartGetc (s : Uart) : Uart :=
  match s.getc with
  | .idle => { s with getc := .compare }
  | .compare => if s.head = s.tail then s else { s with getc := .load }
  | .load => { s with getc := .advance (s.data s.tail) }
  | .advance ch =>
      { s with
        tail := (s.tail + 1) % uartBufSize
        getc := .idle
        returned := s.returned ++ [ch] }

/-- A step of the handler or of the reader. -/
def UartNext (s s' : Uart) : Prop := (∃ ch, s' = uartIsrReceive ch s) ∨ s' = uartGetc s

/-! ## The invariant -/

/-- A byte has been accepted and not stored. -/
def IsrPc.unstored : IsrPc → Nat
  | .store _ _ => 1
  | _ => 0

/-- A byte has been accepted and `head` has not been moved past it. -/
def IsrPc.unpublished : IsrPc → Nat
  | .store _ _ | .advance _ => 1
  | _ => 0

/-- What the handler knows at its program counter, `head` having been moved past the first `pub` bytes. -/
def IsrPc.Knows (accepted : List (BitVec 8)) (pub : Nat) : IsrPc → Prop
  | .poll => True
  | .compare _ nextHead => nextHead = (pub + 1) % uartBufSize
  | .store ch nextHead => nextHead = (pub + 1) % uartBufSize ∧ accepted[pub]? = some ch
  | .advance nextHead => nextHead = (pub + 1) % uartBufSize

/-- What the reader knows at its program counter: `got` bytes have been returned. -/
def GetcPc.Knows (accepted : List (BitVec 8)) (got pub : Nat) : GetcPc → Prop
  | .idle | .compare => True
  | .load => got < pub
  | .advance ch => got < pub ∧ accepted[got]? = some ch

/-- The positions behind `head` and `tail`, and the bytes between them. -/
structure UartInv (s : Uart) (got pub : Nat) : Prop where
  returned : s.returned = s.accepted.take got
  got_le : got ≤ pub
  pub_eq : pub + s.isr.unpublished = s.accepted.length
  near : s.accepted.length < got + uartBufSize
  head : s.head = pub % uartBufSize
  tail : s.tail = got % uartBufSize
  holds : Holds uartBufSize s.data s.accepted got (s.accepted.length - s.isr.unstored)
  isr : s.isr.Knows s.accepted pub
  getc : s.getc.Knows s.accepted got pub
  dropped : ∀ unread ∈ s.dropped, unread = uartBufSize - 1

theorem uartInv_init : UartInv uartInit 0 0 where
  returned := rfl
  got_le := le_refl 0
  pub_eq := rfl
  near := by decide
  head := rfl
  tail := rfl
  holds := fun i _ hi => absurd hi (by simp [uartInit])
  isr := trivial
  getc := trivial
  dropped := by simp [uartInit]

variable {s : Uart} {got pub : Nat}

theorem UartInv.returned_length (h : UartInv s got pub) : s.returned.length = got := by
  have hPub := h.pub_eq
  have hGot := h.got_le
  rw [h.returned, List.length_take]
  omega

/-- What the reader knows stays true when a byte is accepted. -/
theorem GetcPc.Knows.append {accepted : List (BitVec 8)} {pc : GetcPc}
    (h : pc.Knows accepted got pub) (hLe : pub ≤ accepted.length) (ch : BitVec 8) :
    pc.Knows (accepted ++ [ch]) got pub := by
  cases pc with
  | idle => trivial
  | compare => trivial
  | load => exact h
  | advance c =>
      obtain ⟨hLt, hGet⟩ := h
      refine ⟨hLt, ?_⟩
      rw [List.getElem?_append_left (by omega)]
      exact hGet

/-- What the reader knows stays true when `head` moves on. -/
theorem GetcPc.Knows.publish {accepted : List (BitVec 8)} {pc : GetcPc}
    (h : pc.Knows accepted got pub) : pc.Knows accepted got (pub + 1) := by
  cases pc with
  | idle => trivial
  | compare => trivial
  | load => exact Nat.lt_succ_of_lt h
  | advance c => exact ⟨Nat.lt_succ_of_lt h.1, h.2⟩

/-- A step of the handler. -/
theorem UartInv.uartIsrReceive (h : UartInv s got pub) (ch : BitVec 8) :
    ∃ pub', UartInv (uartIsrReceive ch s) got pub' := by
  have hPub := h.pub_eq
  have hNear := h.near
  have hGot := h.got_le
  have hKnows := h.isr
  unfold Rayos.uartIsrReceive
  cases hPc : s.isr with
  | poll =>
      rw [hPc] at hPub
      refine ⟨pub, h.returned, hGot, hPub, hNear, h.head, h.tail, ?_, ?_, h.getc, h.dropped⟩
      · have hHolds := h.holds
        rw [hPc] at hHolds
        exact hHolds
      · show (s.head + 1) % uartBufSize = (pub + 1) % uartBufSize
        rw [h.head, slot_succ]
  | compare c nextHead =>
      rw [hPc] at hPub hKnows
      have hLen : pub = s.accepted.length := hPub
      have hNext : nextHead = (pub + 1) % uartBufSize := hKnows
      have hHolds := h.holds
      rw [hPc] at hHolds
      have hFull := slot_succ_eq_iff hGot (show pub < got + uartBufSize by omega)
      simp only
      by_cases hRoom : nextHead = s.tail
      · -- the ring is full
        rw [if_neg (not_not.mpr hRoom)]
        refine ⟨pub, h.returned, hGot, hPub, hNear, h.head, h.tail, hHolds, trivial, h.getc, ?_⟩
        intro unread hMem
        rcases List.mem_append.mp hMem with hMem | hMem
        · exact h.dropped unread hMem
        · rw [hNext, h.tail, hFull] at hRoom
          rw [List.mem_singleton] at hMem
          rw [hMem, h.returned_length]
          omega
      · rw [if_pos hRoom]
        rw [hNext, h.tail, hFull] at hRoom
        refine ⟨pub, ?_, hGot, ?_, ?_, h.head, h.tail, ?_, ⟨hNext, ?_⟩, ?_, h.dropped⟩
        · rw [h.returned, List.take_append_of_le_length (by omega)]
        · simp [IsrPc.unpublished, hLen]
        · simp only [List.length_append, List.length_singleton]
          omega
        · have hAppend := hHolds.append (by simp [IsrPc.unstored]) c
          simpa [IsrPc.unstored] using hAppend
        · simp [hLen]
        · exact h.getc.append (by omega) c
  | store c nextHead =>
      rw [hPc] at hPub hKnows
      obtain ⟨hNext, hChar⟩ := hKnows
      have hLen : s.accepted.length = pub + 1 := hPub.symm
      have hHolds := h.holds
      rw [hPc] at hHolds
      have hStored : s.accepted.length - IsrPc.unstored (.store c nextHead) = pub := by
        simp [IsrPc.unstored, hLen]
      rw [hStored] at hHolds
      refine ⟨pub, h.returned, hGot, hPub, hNear, h.head, h.tail, ?_, hNext, h.getc, h.dropped⟩
      have hWrite := hHolds.write (by omega) hChar
      simp only [IsrPc.unstored, Nat.sub_zero]
      rw [h.head, hLen]
      exact hWrite
  | advance nextHead =>
      rw [hPc] at hPub hKnows
      have hNext : nextHead = (pub + 1) % uartBufSize := hKnows
      have hHolds := h.holds
      rw [hPc] at hHolds
      exact ⟨pub + 1, h.returned, by omega, hPub, hNear, hNext, h.tail, hHolds, trivial,
        h.getc.publish, h.dropped⟩

/-- A step of the reader. -/
theorem UartInv.uartGetc (h : UartInv s got pub) : ∃ got', UartInv (uartGetc s) got' pub := by
  have hPub := h.pub_eq
  have hNear := h.near
  have hGot := h.got_le
  have hKnows := h.getc
  unfold Rayos.uartGetc
  cases hPc : s.getc with
  | idle =>
      exact ⟨got, h.returned, hGot, hPub, hNear, h.head, h.tail, h.holds, h.isr, trivial,
        h.dropped⟩
  | compare =>
      simp only
      by_cases hEmpty : s.head = s.tail
      · rw [if_pos hEmpty]
        exact ⟨got, h⟩
      · rw [if_neg hEmpty]
        have hSlot := slot_eq_iff hGot (show pub < got + uartBufSize by omega)
        rw [h.head, h.tail, hSlot] at hEmpty
        exact ⟨got, h.returned, hGot, hPub, hNear, h.head, h.tail, h.holds, h.isr,
          show got < pub by omega, h.dropped⟩
  | load =>
      rw [hPc] at hKnows
      have hLt : got < pub := hKnows
      have hStored : s.isr.unstored ≤ s.isr.unpublished := by
        cases s.isr <;> simp [IsrPc.unstored, IsrPc.unpublished]
      have hByte := h.holds got (le_refl got) (by omega)
      rw [← h.tail] at hByte
      exact ⟨got, h.returned, hGot, hPub, hNear, h.head, h.tail, h.holds, h.isr, ⟨hLt, hByte⟩,
        h.dropped⟩
  | advance c =>
      rw [hPc] at hKnows
      obtain ⟨hLt, hByte⟩ := hKnows
      refine ⟨got + 1, ?_, by omega, hPub, show s.accepted.length < got + 1 + uartBufSize by omega,
        h.head, ?_, h.holds.drop, h.isr, trivial,
        h.dropped⟩
      · simp only
        rw [h.returned, List.take_add_one, hByte]
        rfl
      · simp only
        rw [h.tail, slot_succ]

/-- The invariant holds in every reachable state. -/
theorem uartInv_run (h : Relation.ReflTransGen UartNext uartInit s) :
    ∃ got pub, UartInv s got pub := by
  induction h with
  | refl => exact ⟨0, 0, uartInv_init⟩
  | tail _ hNext ih =>
      obtain ⟨got, pub, hInv⟩ := ih
      rcases hNext with ⟨ch, rfl⟩ | rfl
      · obtain ⟨pub', hInv'⟩ := hInv.uartIsrReceive ch
        exact ⟨got, pub', hInv'⟩
      · obtain ⟨got', hInv'⟩ := hInv.uartGetc
        exact ⟨got', pub, hInv'⟩

/-- **The receive ring is a queue.**  Whatever the order of the steps, the bytes returned are the first
ones of the bytes accepted, and all of them once the ring is empty; a byte is dropped only when
`UART_BUF_SIZE - 1` accepted bytes are unread; and the two indices stay inside the buffer. -/
theorem uart_fifo (h : Relation.ReflTransGen UartNext uartInit s) :
    s.returned <+: s.accepted ∧
    (s.isr = .poll → s.head = s.tail → s.returned = s.accepted) ∧
    s.accepted.length ≤ s.returned.length + (uartBufSize - 1) ∧
    (∀ unread ∈ s.dropped, unread = uartBufSize - 1) ∧
    s.head < uartBufSize ∧ s.tail < uartBufSize := by
  obtain ⟨got, pub, hInv⟩ := uartInv_run h
  have hPub := hInv.pub_eq
  have hNear := hInv.near
  have hGot := hInv.got_le
  refine ⟨?_, ?_, ?_, hInv.dropped, ?_, ?_⟩
  · rw [hInv.returned]
    exact List.take_prefix got s.accepted
  · intro hPoll hEmpty
    rw [hPoll] at hPub
    have hLen : pub = s.accepted.length := hPub
    rw [hInv.head, hInv.tail, slot_eq_iff hGot (by omega)] at hEmpty
    rw [hInv.returned, List.take_of_length_le (by omega)]
  · rw [hInv.returned_length]
    omega
  · rw [hInv.head]
    exact Nat.mod_lt _ (by decide)
  · rw [hInv.tail]
    exact Nat.mod_lt _ (by decide)

/-- The state after one byte has been received and read. -/
def uartOneByte : Uart :=
  uartGetc (uartGetc (uartGetc (uartGetc
    (uartIsrReceive 0#8 (uartIsrReceive 0#8 (uartIsrReceive 0#8 (uartIsrReceive 0x41#8 uartInit)))))))

/-- The byte that is received is the byte that is read. -/
theorem uart_fifo_oneByte : uartOneByte.accepted = [0x41#8] ∧ uartOneByte.returned = [0x41#8] ∧
    uartOneByte.returned <+: uartOneByte.accepted := by
  have hIsr : ∀ ch s, UartNext s (uartIsrReceive ch s) := fun ch s => Or.inl ⟨ch, rfl⟩
  have hGetc : ∀ s, UartNext s (uartGetc s) := fun s => Or.inr rfl
  have hRun : Relation.ReflTransGen UartNext uartInit uartOneByte :=
    .tail (.tail (.tail (.tail (.tail (.tail (.tail (.tail .refl (hIsr _ _)) (hIsr _ _)) (hIsr _ _))
      (hIsr _ _)) (hGetc _)) (hGetc _)) (hGetc _)) (hGetc _)
  exact ⟨by decide, by decide, (uart_fifo hRun).1⟩

end Rayos
